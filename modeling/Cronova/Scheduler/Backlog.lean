import Cronova.Scheduler.Frame
import Cronova.Scheduler.Promises
import Cronova.Scheduler.Schedule
import Cronova.Store.Effects
import Mathlib.Data.List.Dedup

/-! Which queued runs a tick gets to: the window of the oldest queued rows, the order in
which it is drained, and the promotion gate. -/

set_option autoImplicit false

namespace Cronova.Scheduler

open Model Store Process
open Prog (Issues Yields)

/-! ### The order of the drain -/

section Order

variable {queue : List DagRun} {sorted : DagID → List DagRun} {dag : DagID}

/-- Every slot of the queue is refilled with a run of its own DAG. -/
theorem filter_refill (own : ∀ dag, ∀ r ∈ sorted dag, r.dagID = dag) (dag : DagID) :
    (refill queue sorted).filter (·.dagID == dag) = (sorted dag).take (queue.countP (·.dagID == dag)) := by
  induction queue generalizing sorted with
  | nil => rfl
  | cons r rest ih =>
    rw [refill]
    cases slot : sorted r.dagID with
    | nil =>
      rw [ih own]
      by_cases same : r.dagID = dag
      · subst same
        simp [slot]
      · simp [same]
    | cons next later =>
      have mine : next.dagID = r.dagID := own _ next (by simp [slot])
      have shifted : ∀ dag, ∀ x ∈ Function.update sorted r.dagID later dag, x.dagID = dag := by
        intro other x member
        by_cases same : other = r.dagID
        · subst same
          rw [Function.update_self] at member
          exact own _ x (by simp [slot, member])
        · rw [Function.update_of_ne same] at member
          exact own _ x member
      by_cases same : r.dagID = dag
      · subst same
        simp only [List.filter_cons, mine, beq_self_eq_true, if_true, List.countP_cons_of_pos, ih shifted, slot,
          Function.update_self, List.take_succ_cons]
      · simp only [List.filter_cons, mine, ih shifted, Function.update_of_ne (Ne.symm same)]
        simp [same]

/-- The queue of one DAG: by priority if the DAG drains so, else as listed. -/
def drainOrder (byPriority : Bool) (rows : List DagRun) : List DagRun :=
  if byPriority then rows.insertionSort fun a b => drainsBefore a b else rows

theorem mem_drainOrder {byPriority : Bool} {rows : List DagRun} {r : DagRun} : r ∈ drainOrder byPriority rows ↔ r ∈ rows := by
  unfold drainOrder
  split
  · exact List.mem_insertionSort _
  · exact Iff.rfl

theorem length_drainOrder (byPriority : Bool) (rows : List DagRun) : (drainOrder byPriority rows).length = rows.length := by
  unfold drainOrder
  split
  · exact List.length_insertionSort _ _
  · rfl

/-- The drained queue holds the runs of each DAG in the order of that DAG. -/
theorem filter_reorderPriorityQueues (priority : DagID → Bool) (queued : List DagRun) (dag : DagID) :
    (reorderPriorityQueues priority queued).filter (·.dagID == dag) =
      drainOrder (priority dag) (queued.filter (·.dagID == dag)) := by
  have own : ∀ dag, ∀ r ∈ drainOrder (priority dag) (queued.filter (·.dagID == dag)), r.dagID = dag := by
    intro dag r member
    exact beq_iff_eq.mp (List.mem_filter.mp (mem_drainOrder.mp member)).2
  have filled := @filter_refill queued (fun dag => drainOrder (priority dag) (queued.filter (·.dagID == dag))) own dag
  rw [List.take_of_length_le] at filled
  · exact filled
  · rw [length_drainOrder, List.countP_eq_length_filter]

theorem mem_reordered {priority : DagID → Bool} {queued : List DagRun} {r : DagRun} :
    r ∈ reorderPriorityQueues priority queued ↔ r ∈ queued := by
  have split (rows : List DagRun) : r ∈ rows ↔ r ∈ rows.filter (·.dagID == r.dagID) := by simp
  rw [split, filter_reorderPriorityQueues, mem_drainOrder, ← split]

end Order

/-! ### The first run of a DAG -/

section First

variable {db : DB} {policy : ExecutionPolicy} {r : DagRun}

/-- The queued runs of a DAG in queue order. -/
def queueOf (db : DB) (policy : ExecutionPolicy) (dag : DagID) : List DagRun :=
  drainOrder (policy == .serialPriority) ((db.listDagRunsByState .queued).filter (·.dagID == dag))

/-- The run is the first of its DAG, in queue order, that is queued and not held. -/
def FirstFree (db : DB) (policy : ExecutionPolicy) (r : DagRun) : Prop :=
  ((queueOf db policy r.dagID).filter (!·.held)).head? = some r

theorem drainsBefore_iff {a b : DagRun} : drainsBefore a b = true ↔
    b.priority < a.priority ∨ (a.priority = b.priority ∧ a.logicalDate ≤ b.logicalDate) := by
  unfold drainsBefore
  split
  · rename_i apart
    simp [apart]
  · rename_i same
    simp [not_not.mp same]

theorem drainsBefore_total (a b : DagRun) : drainsBefore a b = true ∨ drainsBefore b a = true := by
  rw [drainsBefore_iff, drainsBefore_iff]
  rcases Int.lt_trichotomy a.priority b.priority with below | same | above
  · exact .inr (.inl below)
  · rcases Int.le_total a.logicalDate b.logicalDate with before | after
    · exact .inl (.inr ⟨same, before⟩)
    · exact .inr (.inr ⟨same.symm, after⟩)
  · exact .inl (.inl above)

theorem drainsBefore_trans {a b c : DagRun} (first : drainsBefore a b = true) (second : drainsBefore b c = true) :
    drainsBefore a c = true := by
  rw [drainsBefore_iff] at *
  rcases first with above | ⟨same, before⟩
  · exact .inl (by omega)
  · rcases second with below | ⟨same', after⟩
    · exact .inl (by omega)
    · exact .inr ⟨same.trans same', Int.le_trans before after⟩

theorem drainsBefore_antisymm {a b : DagRun} (first : drainsBefore a b = true) (second : drainsBefore b a = true) :
    a.logicalDate = b.logicalDate := by
  rw [drainsBefore_iff] at first second
  rcases first with above | ⟨_, before⟩
  · omega
  · rcases second with below | ⟨_, after⟩
    · omega
    · exact Int.le_antisymm before after

instance : Std.Total fun a b : DagRun => drainsBefore a b = true := ⟨drainsBefore_total⟩

instance : IsTrans DagRun fun a b => drainsBefore a b = true := ⟨fun _ _ _ => drainsBefore_trans⟩

theorem drained_pairwise (rows : List DagRun) :
    (rows.insertionSort fun a b => drainsBefore a b).Pairwise fun a b => drainsBefore a b = true :=
  List.pairwise_insertionSort _ rows

theorem FirstFree.free (first : FirstFree db policy r) : r ∈ db.runs ∧ r.state = .queued ∧ r.held = false := by
  obtain ⟨member, free⟩ := List.mem_filter.mp (List.mem_of_head? first)
  have listed := (List.mem_filter.mp (mem_drainOrder.mp member)).1
  obtain ⟨stored, queued⟩ := DB.mem_listDagRunsByState.mp listed
  exact ⟨stored, queued, by simpa using free⟩

theorem listDagRunsByStateLimited_eq_take (db : DB) (state : RunState) (limit : Int) :
    ∃ n, db.listDagRunsByStateLimited state limit = (db.listDagRunsByState state).take n := by
  unfold DB.listDagRunsByStateLimited
  split
  · exact ⟨_, (List.take_length).symm⟩
  · exact ⟨_, rfl⟩

/-- In any window of the listing that holds it, only held runs of its DAG come before it. -/
theorem FirstFree.window (first : FirstFree db policy r) {n : Nat} {earlier later : List DagRun}
    (drained : drainOrder (policy == .serialPriority)
      (((db.listDagRunsByState .queued).take n).filter (·.dagID == r.dagID)) = earlier ++ r :: later)
    (fresh : r ∉ earlier) {x : DagRun} (before : x ∈ earlier) : x.held = true := by
  by_contra held
  have whole : r ∈ db.runs := first.free.1
  have free : (!x.held) = true := by simpa using held
  unfold FirstFree queueOf at first
  unfold drainOrder at drained first
  split at drained
  · -- by priority: the first free run drains before every other free one
    rename_i byPriority
    rw [if_pos byPriority] at first
    have sorted := drained_pairwise (((db.listDagRunsByState .queued).take n).filter (·.dagID == r.dagID))
    rw [drained] at sorted
    have above : drainsBefore x r = true := (List.pairwise_append.mp sorted).2.2 x before r (.head _)
    have listed : x ∈ ((db.listDagRunsByState .queued).take n).filter (·.dagID == r.dagID) := by
      rw [← List.mem_insertionSort fun a b => drainsBefore a b = true, drained]
      exact List.mem_append_left _ before
    obtain ⟨inWindow, own⟩ := List.mem_filter.mp listed
    replace inWindow := List.mem_of_mem_take inWindow
    have drained' := (drained_pairwise ((db.listDagRunsByState .queued).filter (·.dagID == r.dagID))).filter (!·.held)
    have member : x ∈ (((db.listDagRunsByState .queued).filter (·.dagID == r.dagID)).insertionSort
        fun a b => drainsBefore a b = true).filter (!·.held) :=
      List.mem_filter.mpr ⟨(List.mem_insertionSort _).mpr (List.mem_filter.mpr ⟨inWindow, own⟩), free⟩
    have below : x = r ∨ drainsBefore r x = true := by
      cases queue : (((db.listDagRunsByState .queued).filter (·.dagID == r.dagID)).insertionSort
          fun a b => drainsBefore a b = true).filter (!·.held) with
      | nil => simp [queue] at member
      | cons y rest =>
        rw [queue] at first drained' member
        obtain rfl : y = r := by simpa using first
        exact (List.mem_cons.mp member).imp_right fun later => List.rel_of_pairwise_cons drained' later
    rcases below with rfl | below
    · exact fresh before
    · have date := drainsBefore_antisymm above below
      have clash : ¬ (runKey x).apart (runKey r) := fun apart => apart.2 ⟨beq_iff_eq.mp own, date⟩
      have same : x = r := Table.eq_of_clash DB.RunKey.apart_symm (DB.mem_listDagRunsByState.mp inWindow).1 whole clash
      exact fresh (same ▸ before)
  · -- as listed: the window is a prefix of the listing
    rename_i asListed
    rw [if_neg asListed] at first
    have whole : (db.listDagRunsByState .queued).filter (·.dagID == r.dagID) =
        earlier ++ r :: (later ++ ((db.listDagRunsByState .queued).drop n).filter (·.dagID == r.dagID)) := by
      rw [← List.cons_append, ← List.append_assoc, ← drained, ← List.filter_append, List.take_append_drop]
    rw [whole, List.filter_append] at first
    have kept : x ∈ earlier.filter (!·.held) := List.mem_filter.mpr ⟨before, free⟩
    cases split : earlier.filter (!·.held) with
    | nil => simp [split] at kept
    | cons y rest =>
      rw [split] at first
      obtain rfl : y = r := by simpa using first
      exact fresh (List.mem_filter.mp (split ▸ List.mem_cons_self)).1

end First

/-! ### What a tick hands to `processRun` -/

section Handed

/-- The run that the statement starts to process. -/
def Op.hands (o : Op) : List DagRun :=
  match o.enters with
  | some (.process run) => [run]
  | _ => []

def handsAfter (v : List DagRun) (o : Op) (_ : o.Reply) : List DagRun := v ++ o.hands

/-- The runs handed to `processRun`, in order. -/
def handedRuns (log : List (Issued statements)) : List DagRun := Prog.view handsAfter [] log

/-- The policy of the gate, and how many runs of the DAG it lets run. -/
def gatePolicy (cached : Option CachedDAG) : ExecutionPolicy := (cached.map (·.dag.executionPolicy)).getD .parallel

def gateLimit (cached : Option CachedDAG) : Int :=
  let configured := (cached.map (·.dag.maxActiveRuns)).getD 1
  if gatePolicy cached ≠ .parallel ∨ configured ≤ 0 then 1 else configured

/-- The replies of a tick that the gate depends on: the listings, and the definition of one DAG,
which is not edited meanwhile. -/
def Answers (db : DB) (running : List DagRun) (dag : DagID) (policy : ExecutionPolicy) (limit : Int) :
    (o : Op) → o.Reply → Prop
  | .listDagRunsByStateLimited state count, reply => reply = .ok (db.listDagRunsByStateLimited state count)
  | .listDagRunsByState state, reply => state = .running → reply = .ok running
  | .cachedDAG other, reply => other = dag → gatePolicy reply = policy ∧ gateLimit reply = limit
  | _, _ => True

variable {env : Env} {honest : (o : Op) → o.Reply → Prop}

/-- The contract of a tick whose surroundings answer so. -/
abbrev handing (honest : (o : Op) → o.Reply → Prop) : Contract statements (List DagRun) :=
  Prog.tracking (I := statements) handsAfter honest fun _ _ => True

theorem Op.Plain.hands {o : Op} (plain : o.Plain) : o.hands = [] := by rw [Op.hands, plain.enters]

/-- Statements that hand no run over. -/
theorem handing_frame (v : List DagRun) : Prog.Frame (handing honest) (fun o : Op => o.hands = []) (· = v) where
  rely _ _ same kept := same ▸ kept
  permit _ _ _ _ _ := trivial
  step o s r t none _ stepped kept := by
    have after : t = s ++ o.hands := stepped.2
    rw [after, none, List.append_nil, kept]

theorem handing_plain (v : List DagRun) : Prog.Frame (handing honest) Op.Plain (· = v) where
  rely _ _ same kept := same ▸ kept
  permit _ _ _ _ _ := trivial
  step o s r t plain inv stepped kept := (handing_frame v).step o s r t plain.hands inv stepped kept

/-- A run is handed over once, when its section is entered. -/
theorem processRun_hands (run : DagRun) (v : List DagRun) :
    (processRun env run).Safe (handing honest) (Prog.returns fun _ u => u = v ++ [run]) v := by
  have launches : Launches env (handing honest) (· = v ++ [run]) run := by
    intro after t ti now _
    have none : Issues (fun o : Op => o.hands = []) (launchSubdag env after t ti now) :=
      launchSubdag_issues env (fun _ => Op.Plain.hands) after t ti now rfl
    exact Keeps.promise (handing_frame _) none
  unfold processRun locked
  refine Prog.Safe.andThen (fun _ u => u = v ++ [run]) (Prog.Safe.tracked trivial fun _ _ => rfl) fun _ u entered => ?_
  refine Prog.Safe.andThen (fun result t => (∃ ready, result = .ok ready) ∧ t = v ++ [run]) ?_ fun result t ended => ?_
  · apply Prog.Safe.attempt
    refine (advanceRun_completes (handing_plain _) launches u entered).mono fun result t ended => ?_
    cases result with
    | ok ready => exact ⟨⟨ready, rfl⟩, ended⟩
    | error e => exact ended.elim
  · obtain ⟨⟨ready, rfl⟩, kept⟩ := ended
    refine Prog.Safe.andThen (fun _ x => x = v ++ [run]) (Prog.Safe.tracked trivial fun _ _ => ?_) fun _ x left => left
    show t ++ [] = v ++ [run]
    rw [List.append_nil, kept]

/-! ### The promotion -/

variable {db : DB} {running : List DagRun} {dag : DagID} {policy : ExecutionPolicy} {limit : Int}

/-- What one round of the promotion does with the counts and with the runs handed over. -/
inductive Turn (env : Env) (dag : DagID) (limit : Int) (p : Promotion) (v : List DagRun) (run : DagRun) :
    Promotion → List DagRun → Prop where
  | passed (barred : env.maxActiveRunsGlobal ≤ p.globalRunning ∨ run.held = true ∨
      (run.dagID = dag → limit ≤ p.running dag)) : Turn env dag limit p v run p v
  | handed (ready : List ReadyTask) (free : run.held = false) :
      Turn env dag limit p v run
        ⟨Function.update p.running run.dagID (p.running run.dagID + 1), p.globalRunning + 1, ready⟩ (v ++ [run])

theorem promoteRun_rounds (p : Promotion) (run : DagRun) (v : List DagRun) :
    (promoteRun env p run).Safe (handing (Answers db running dag policy limit))
      (Prog.returns fun p' u => Turn env dag limit p v run p' u) v := by
  unfold promoteRun
  split
  · rename_i barred
    exact .passed (barred.imp id .inl)
  · rename_i open_
    have free : run.held = false := by simpa using (not_or.mp open_).2
    refine Prog.Safe.tracked trivial fun cached answered => ?_
    have same : handsAfter v (.cachedDAG run.dagID) cached = v := List.append_nil v
    rw [same]
    have shut (closed : p.running run.dagID ≥ gateLimit cached) : Turn env dag limit p v run p v := by
      refine .passed (.inr (.inr fun own => ?_))
      rw [← (answered own).2, ← own]
      exact closed
    show Prog.Safe _ (if p.running run.dagID ≥ gateLimit cached then do
        if gatePolicy cached = .serialDiscard then discardRun run
        pure p
      else do
        let collected ← processRun env run
        pure ⟨Function.update p.running run.dagID (p.running run.dagID + 1), p.globalRunning + 1, p.ready ++ collected⟩ :
      Act Promotion) _ v
    split
    · rename_i closed
      split
      · refine Prog.Safe.andThen _ (discardRun_completes (handing_plain v) run v rfl) fun _ u kept => ?_
        subst kept
        exact shut closed
      · exact shut closed
    · refine Prog.Safe.andThen _ (processRun_hands run v) fun collected u handed => ?_
      subst handed
      exact .handed _ free

/-- What the promotion of the queued runs keeps, for the run `r` that waits for its turn. -/
structure Draining (env : Env) (window running : List DagRun) (limit : Int) (r : DagRun) (rest : List DagRun)
    (p : Promotion) (v : List DagRun) : Prop where
  counted : p.globalRunning = v.length
  among : ∀ x ∈ v, x ∈ running ∨ (x ∈ window ∧ x.held = false)
  turn : r ∈ window → r ∈ v ∨ env.maxActiveRunsGlobal ≤ v.length ∨
    (p.running r.dagID < limit ∧ ∃ earlier later, rest = earlier ++ r :: later ∧ ∀ x ∈ earlier, x.dagID = r.dagID → x.held = true)

theorem Draining.round {window rest : List DagRun} {r run : DagRun} {p q : Promotion} {u v : List DagRun}
    (draining : Draining env window running limit r (run :: rest) p v) (listed : run ∈ window) (free : r.held = false)
    (round : Turn env r.dagID limit p v run q u) : Draining env window running limit r rest q u := by
  cases round with
  | passed barred =>
    refine ⟨draining.counted, draining.among, fun inWindow => ?_⟩
    rcases draining.turn inWindow with handed | full | ⟨below, earlier, later, split, held⟩
    · exact .inl handed
    · exact .inr (.inl full)
    · cases earlier with
      | nil =>
        -- it is the turn of `r` itself: only the cap can bar it
        obtain ⟨rfl, rfl⟩ := List.cons.inj split
        rcases barred with full | held | reaches
        · exact .inr (.inl (draining.counted ▸ full))
        · rw [free] at held
          cases held
        · have reached := reaches rfl
          omega
      | cons first earlier =>
        obtain ⟨rfl, rfl⟩ := List.cons.inj split
        exact .inr (.inr ⟨below, earlier, later, rfl, fun x member => held x (.tail _ member)⟩)
  | handed ready open_ =>
    refine ⟨?_, fun x member => ?_, fun inWindow => ?_⟩
    · rw [List.length_append, List.length_singleton, draining.counted]
      rfl
    · rcases List.mem_append.mp member with before | last
      · exact draining.among x before
      · obtain rfl := List.mem_singleton.mp last
        exact .inr ⟨listed, open_⟩
    · rcases draining.turn inWindow with handed | full | ⟨below, earlier, later, split, held⟩
      · exact .inl (List.mem_append_left _ handed)
      · refine .inr (.inl ?_)
        rw [List.length_append]
        omega
      · cases earlier with
        | nil =>
          obtain ⟨rfl, rfl⟩ := List.cons.inj split
          exact .inl (List.mem_append_right _ (.head _))
        | cons first earlier =>
          obtain ⟨rfl, rfl⟩ := List.cons.inj split
          -- a run of the same DAG would be held
          have other : run.dagID ≠ r.dagID := by
            intro own
            rw [held run (.head _) own] at open_
            cases open_
          refine .inr (.inr ⟨?_, earlier, later, rfl, fun x member => held x (.tail _ member)⟩)
          show Function.update p.running run.dagID _ r.dagID < limit
          rw [Function.update_of_ne (Ne.symm other)]
          exact below

/-- Every running run is handed over first. -/
theorem sweep_hands (runs : List DagRun) (ready : List ReadyTask) (v : List DagRun) :
    (Prog.fold (fun ready run => do
      let collected ← processRun env run
      pure (ready ++ collected)) runs ready).Safe (handing honest) (Prog.returns fun _ u => u = v ++ runs) v := by
  induction runs generalizing ready v with
  | nil => exact (List.append_nil v).symm
  | cons run rest ih =>
    refine Prog.Safe.andThen (fun _ u => u = v ++ [run]) ?_ fun ready u handed => ?_
    · exact Prog.Safe.andThen _ (processRun_hands run v) fun _ u handed => handed
    · subst handed
      have onward := ih ready (v ++ [run])
      rwa [List.append_assoc] at onward

theorem any_serialPriority (cached : Option CachedDAG) :
    cached.any (·.dag.executionPolicy == .serialPriority) = (gatePolicy cached == .serialPriority) := by
  cases cached <;> rfl

/-- The DAG of a queued run drains by its policy. -/
theorem priorityDAGs_hands (queued : List DagRun) (v : List DagRun) :
    (priorityDAGs queued).Safe (handing (Answers db running dag policy limit)) (Prog.returns fun priority u =>
      u = v ∧ ((∃ r ∈ queued, r.dagID = dag) → priority dag = (policy == .serialPriority))) v := by
  apply Prog.Safe.fold fun rest known u => u = v ∧
    ((∃ r ∈ queued, r.dagID = dag) → dag ∈ rest ∨ known dag = (policy == .serialPriority))
  · refine ⟨rfl, fun some => .inl ?_⟩
    obtain ⟨r, member, rfl⟩ := some
    exact List.mem_dedup.mpr (List.mem_map_of_mem member)
  · intro other rest known u kept
    obtain ⟨rfl, known_⟩ := kept
    refine Prog.Safe.tracked trivial fun cached answered => ?_
    refine ⟨List.append_nil _, fun some => ?_⟩
    by_cases same : other = dag
    · subst same
      right
      rw [Function.update_self]
      exact (any_serialPriority cached).trans (by rw [(answered rfl).1])
    · rw [Function.update_of_ne (Ne.symm same)]
      exact (known_ some).imp_left fun member => (List.mem_cons.mp member).resolve_left fun eq => same eq.symm
  · intro known u kept
    exact ⟨kept.1, fun some => (kept.2 some).resolve_left (by simp)⟩

/-- The tick as a whole, for a run that is the first free one of its DAG. -/
theorem processActiveRuns_hands {r : DagRun} (first : FirstFree db policy r)
    (below : (running.countP (·.dagID == r.dagID) : Int) < limit) :
    (processActiveRuns env).Safe (handing (Answers db running r.dagID policy limit)) (Prog.returns fun _ v =>
      (∀ x ∈ v, x ∈ running ∨ (x ∈ db.listDagRunsByStateLimited .queued (env.maxActiveRunsGlobal + 500) ∧ x.held = false)) ∧
      (r ∈ db.listDagRunsByStateLimited .queued (env.maxActiveRunsGlobal + 500) →
        r ∈ v ∨ env.maxActiveRunsGlobal ≤ v.length)) [] := by
  generalize listing : db.listDagRunsByStateLimited .queued (env.maxActiveRunsGlobal + 500) = window
  refine Prog.Safe.tracked trivial fun reply answered => ?_
  have queued : reply = .ok window := by
    rw [← listing]
    exact answered
  subst queued
  refine Prog.Safe.tracked trivial fun reply answered => ?_
  have active : reply = .ok running := answered rfl
  subst active
  show Prog.Safe _ (Prog.bind (Prog.fold _ running []) _) _ ([] : List DagRun)
  refine Prog.Safe.andThen _ (sweep_hands running [] []) fun ready v swept => ?_
  have swept : v = running := swept
  subst swept
  refine Prog.Safe.andThen _ (priorityDAGs_hands window v) fun priority u drains => ?_
  obtain ⟨rfl, drains⟩ := drains
  refine Prog.Safe.andThen (fun p w => Draining env window u limit r [] p w) ?_ fun p w drained => ?_
  · apply Prog.Safe.fold fun rest p w => (∀ run ∈ rest, run ∈ window) ∧ Draining env window u limit r rest p w
    · refine ⟨fun run member => mem_reordered.mp member, rfl, fun x member => .inl member, fun inWindow => ?_⟩
      obtain ⟨earlier, later, split, fresh⟩ := List.eq_append_cons_of_mem (mem_reordered.mpr inWindow)
      refine .inr (.inr ⟨below, earlier, later, split, fun x member own => ?_⟩)
      have drained := filter_reorderPriorityQueues priority window r.dagID
      rw [drains ⟨r, inWindow, rfl⟩, split, List.filter_append, List.filter_cons, if_pos (by simp)] at drained
      obtain ⟨n, prefix_⟩ := listDagRunsByStateLimited_eq_take db .queued (env.maxActiveRunsGlobal + 500)
      rw [← listing, prefix_] at drained
      have apart : r ∉ earlier.filter (·.dagID == r.dagID) := fun member => fresh (List.mem_filter.mp member).1
      exact first.window drained.symm apart (List.mem_filter.mpr ⟨member, by simpa using own⟩)
    · intro run rest p w kept
      obtain ⟨among, draining⟩ := kept
      refine (promoteRun_rounds p run w).mono fun result x round => ?_
      cases result with
      | ok q => exact ⟨fun run member => among run (.tail _ member), draining.round (among run (.head _)) first.free.2.2 round⟩
      | error e => exact round.elim
    · exact fun p w kept => kept.2
  · refine Prog.Safe.mono (admitReady_completes (handing_frame w) (fun _ => Op.Plain.hands) rfl rfl p.ready w rfl) ?_
    intro result x ended
    cases result with
    | error e => exact ended.elim
    | ok _ =>
      obtain rfl : x = w := ended
      refine ⟨drained.among, fun inWindow => ?_⟩
      rcases drained.turn inWindow with handed | full | ⟨_, earlier, later, split, _⟩
      · exact .inl handed
      · exact .inr full
      · simp at split

/-- A store that serves its statements answers so. -/
theorem World.answers {tid : Nat} {a : Answer} {o : Op} {w v : World} {reply : o.Reply} {spawned : List Request}
    (served : a.served = true) (performed : World.perform tid o a w = some (reply, v, spawned)) :
    Answers w.db (w.db.listDagRunsByState .running) dag (gatePolicy (w.cached dag)) (gateLimit (w.cached dag)) o reply := by
  cases o with
  | listDagRunsByStateLimited state count =>
    have read : w.read a (.ok (w.db.listDagRunsByStateLimited state count)) = some (reply, v, spawned) := performed
    rw [World.read_served served] at read
    cases read
    rfl
  | listDagRunsByState state =>
    have read : w.read a (.ok (w.db.listDagRunsByState state)) = some (reply, v, spawned) := performed
    rw [World.read_served served] at read
    cases read
    rintro rfl
    rfl
  | cachedDAG other =>
    cases performed
    rintro rfl
    exact ⟨rfl, rfl⟩
  | _ => trivial

/-- No head-of-line blocking, where the code meets it: in a tick in which the runs handed over
besides it leave room under the global cap, a run that is the first free one of its DAG and
below its DAG's limit is handed to `processRun` if and only if fewer queued runs than the
window holds are listed before it. -/
theorem handed_iff (env : Env) {r : DagRun} {log : List (Issued statements)}
    (after : Prog.After (processActiveRuns env) log (.done ()))
    (answers : ∀ issued ∈ log, Answers db running r.dagID policy limit issued.1 issued.2)
    (active : ∀ run ∈ running, run.state = .running) (first : FirstFree db policy r)
    (below : (running.countP (·.dagID == r.dagID) : Int) < limit)
    (room : (((handedRuns log).filter (· ≠ r)).length : Int) < env.maxActiveRunsGlobal) :
    r ∈ handedRuns log ↔ ((db.listDagRunsByState .queued).idxOf r : Int) < env.maxActiveRunsGlobal + 500 := by
  obtain ⟨among, turn⟩ := after.safe answers (processActiveRuns_hands first below)
  obtain ⟨stored, queued, free⟩ := first.free
  have listed : r ∈ db.listDagRunsByState .queued := DB.mem_listDagRunsByState.mpr ⟨stored, queued⟩
  have window : r ∈ db.listDagRunsByStateLimited .queued (env.maxActiveRunsGlobal + 500) ↔
      ((db.listDagRunsByState .queued).idxOf r : Int) < env.maxActiveRunsGlobal + 500 := by
    rw [DB.listDagRunsByStateLimited, if_neg (by omega), List.mem_take_iff_idxOf_lt listed]
    omega
  rw [← window]
  constructor
  · intro handed
    rcases among r handed with run | ⟨inWindow, _⟩
    · rw [active r run] at queued
      cases queued
    · exact inWindow
  · intro inWindow
    rcases turn inWindow with handed | full
    · exact handed
    · by_contra missed
      -- nobody but the others has used the cap up
      have others : (handedRuns log).filter (· ≠ r) = handedRuns log := by
        rw [List.filter_eq_self]
        intro x member
        simp only [decide_eq_true_eq]
        rintro rfl
        exact missed member
      rw [others] at room
      exact absurd full (by unfold handedRuns at room; omega)

end Handed

/-! ### A backlog of held runs -/

section Held

variable {env : Env} {db : DB} {r : DagRun}

/-- The surroundings of a tick that finds no run running and every DAG like `report`. -/
def quiet (db : DB) : Handler statements Unit := fun o _ =>
  (match o with
    | .listDagRunsByStateLimited state count => .ok (db.listDagRunsByStateLimited state count)
    | .listDagRunsByState _ => .ok []
    | .cachedDAG _ => some ⟨report, none⟩
    | o => o.idle, ())

/-- What a tick in these surroundings issues. -/
def quietLog (env : Env) (db : DB) : List (Issued statements) :=
  ((processActiveRuns env).run (Prog.recorded (quiet db)) ((), [])).2.2

theorem quiet_answers {dag : DagID} : ∀ issued ∈ quietLog env db, Answers db [] dag .parallel 1 issued.1 issued.2 := by
  intro issued member
  rcases Prog.recorded_replies (quiet db) () member with before | ⟨_, given⟩
  · cases before
  · obtain ⟨o, reply⟩ := issued
    dsimp only at given
    subst given
    cases o with
    | listDagRunsByStateLimited state count => rfl
    | listDagRunsByState state => exact fun _ => rfl
    | cachedDAG other => exact fun _ => ⟨rfl, rfl⟩
    | _ => trivial

/-- The tick comes to its end, and hands over free runs of the window only. -/
theorem quietLog_hands (env : Env) (first : FirstFree db .parallel r) :
    Prog.After (processActiveRuns env) (quietLog env db) (.done ()) ∧
      ∀ x ∈ handedRuns (quietLog env db),
        x ∈ db.listDagRunsByStateLimited .queued (env.maxActiveRunsGlobal + 500) ∧ x.held = false := by
  have after := Prog.After.recorded (quiet db) (Prog.After.start (p := processActiveRuns env)) ()
  change Prog.After _ (quietLog env db) _ at after
  have ended := after.safe quiet_answers (processActiveRuns_hands first (by simp))
  revert after ended
  generalize ((processActiveRuns env).run (Prog.recorded (quiet db)) ((), [])).1 = result
  intro after ended
  cases result with
  | error e => exact ended.elim
  | ok _ => exact ⟨after, fun x member => (ended.1 x member).resolve_left (by simp)⟩

/-- A run of `report` that waits. -/
def waitingRun : DagRun := { runID := .manual "report" 0, dagID := "report", logicalDate := Calendar.second, triggerType := .manual }

/-- A store with one queued run. -/
def loneStore : DB := { DB.empty with dags := [{ dagID := "report" }], runs := ⟨[waitingRun], List.pairwise_singleton _ _⟩ }

/-- A run that waits alone is handed over. -/
theorem lone_run_handed : FirstFree loneStore .parallel waitingRun ∧
    Prog.After (processActiveRuns hourlyEnv) (quietLog hourlyEnv loneStore) (.done ()) ∧
    (waitingRun ∈ handedRuns (quietLog hourlyEnv loneStore) ↔
      ((loneStore.listDagRunsByState .queued).idxOf waitingRun : Int) < hourlyEnv.maxActiveRunsGlobal + 500) := by
  have first : FirstFree loneStore .parallel waitingRun := by
    unfold FirstFree
    decide +kernel
  have after := (quietLog_hands hourlyEnv first).1
  exact ⟨first, after, handed_iff hourlyEnv after quiet_answers (by simp) first (by decide) (by decide +kernel)⟩

def heldName (i : Nat) : String := String.ofList (List.replicate (i + 1) 'x')

/-- The operator holds a run of each of many DAGs. -/
def heldRun (i : Nat) : DagRun :=
  { runID := .manual (heldName i) 0, dagID := heldName i, logicalDate := 0, held := true, triggerType := .manual }

theorem heldName_inj {i j : Nat} (same : heldName i = heldName j) : i = j := by
  have lists := congrArg (·.toList.length) same
  simpa [heldName] using lists

theorem held_apart (n : Nat) : (((List.range n).map heldRun ++ [waitingRun]).map runKey).Pairwise RunKey.apart := by
  rw [List.map_append, List.map_map]
  refine List.pairwise_append.mpr ⟨?_, List.pairwise_singleton _ _, ?_⟩
  · rw [List.pairwise_map]
    refine List.pairwise_lt_range.imp fun {i j} less => ⟨fun same => ?_, fun same => ?_⟩
    · have ids : heldName i = heldName j := (RunID.manual.inj same).1
      exact absurd (heldName_inj ids) (by omega)
    · exact absurd (heldName_inj same.1) (by omega)
  · intro x held y last
    obtain ⟨i, _, rfl⟩ := List.mem_map.mp held
    obtain rfl := List.mem_singleton.mp last
    have dates : (0 : Calendar.Time) ≠ Calendar.second := by decide
    refine ⟨fun same => ?_, fun same => dates same.2⟩
    have ids : heldName i = "report" := (RunID.manual.inj same).1
    have letters := congrArg (·.toList.head?) ids
    simp [heldName, List.replicate_succ] at letters

/-- A store whose window is full of held runs. -/
def heldStore (n : Nat) : DB := { DB.empty with runs := ⟨(List.range n).map heldRun ++ [waitingRun], held_apart n⟩ }

theorem heldStore_listing (n : Nat) :
    (heldStore n).listDagRunsByState .queued = (List.range n).map heldRun ++ [waitingRun] := by
  have all : (heldStore n).runs.rows.filter (·.state == .queued) = (List.range n).map heldRun ++ [waitingRun] := by
    apply List.filter_eq_self.mpr
    intro x member
    rcases List.mem_append.mp member with held | last
    · obtain ⟨i, _, rfl⟩ := List.mem_map.mp held
      rfl
    · obtain rfl := List.mem_singleton.mp last
      rfl
  rw [DB.listDagRunsByState, all]
  apply List.Pairwise.insertionSort_eq
  refine List.pairwise_append.mpr ⟨?_, List.pairwise_singleton _ _, ?_⟩
  · exact List.pairwise_map.mpr (List.pairwise_iff_forall_sublist.mpr fun _ => le_refl (DB.fmtTime 0))
  · intro x held y last
    obtain ⟨i, _, rfl⟩ := List.mem_map.mp held
    obtain rfl := List.mem_singleton.mp last
    show DB.fmtTime 0 ≤ DB.fmtTime Calendar.second
    decide +kernel

theorem heldStore_first (n : Nat) : FirstFree (heldStore n) .parallel waitingRun := by
  have others : ((List.range n).map heldRun).filter (!·.held) = [] := by
    apply List.filter_eq_nil_iff.mpr
    intro x member
    obtain ⟨i, _, rfl⟩ := List.mem_map.mp member
    exact Bool.false_ne_true
  unfold FirstFree queueOf drainOrder
  rw [if_neg (by decide), heldStore_listing, List.filter_comm, List.filter_append, others]
  decide

/-- 1500 held runs fill the window, and the run behind them is never handed over. -/
theorem held_runs_block : ¬ ∀ (env : Env) (db : DB) (running : List DagRun) (policy : ExecutionPolicy) (limit : Int)
    (r : DagRun) (log : List (Issued statements)),
    Prog.After (processActiveRuns env) log (.done ()) →
    (∀ issued ∈ log, Answers db running r.dagID policy limit issued.1 issued.2) →
    (∀ run ∈ running, run.state = .running) → FirstFree db policy r →
    (running.countP (·.dagID == r.dagID) : Int) < limit →
    (((handedRuns log).filter (· ≠ r)).length : Int) < env.maxActiveRunsGlobal → r ∈ handedRuns log := by
  intro always
  have first := heldStore_first 1500
  obtain ⟨after, handed⟩ := quietLog_hands hourlyEnv first
  have window : (heldStore 1500).listDagRunsByStateLimited .queued (hourlyEnv.maxActiveRunsGlobal + 500) =
      (List.range 1500).map heldRun := by
    rw [DB.listDagRunsByStateLimited, if_neg (by decide), heldStore_listing]
    exact List.take_left' (by rw [List.length_map, List.length_range]; rfl)
  have none : handedRuns (quietLog hourlyEnv (heldStore 1500)) = [] := by
    apply List.eq_nil_iff_forall_not_mem.mpr
    intro x member
    obtain ⟨listed, free⟩ := handed x member
    rw [window] at listed
    obtain ⟨i, _, rfl⟩ := List.mem_map.mp listed
    cases free
  have member := always hourlyEnv (heldStore 1500) [] .parallel 1 waitingRun _ after quiet_answers (by simp) first (by decide)
    (by rw [none]; decide)
  rw [none] at member
  cases member

end Held

end Cronova.Scheduler
