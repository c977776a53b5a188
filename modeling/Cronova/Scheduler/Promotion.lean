import Cronova.Scheduler.Backlog
import Cronova.Scheduler.Capacity
import Cronova.Scheduler.Serial
import Mathlib.Data.List.Induction

/-! The promotion of queued runs in a tick that has the store to itself: which runs it hands
over, and how many run at any moment. -/

set_option autoImplicit false

namespace Cronova.Scheduler

open Model Store Process

/-! ### Tasks that wait hold no reference -/

section Detached

variable {db : DB} {env : Env}

/-- A task that is scheduled holds no reference to an attempt or to a child run. -/
def Detached (db : DB) : Prop := ∀ key ti, db.instance? key = some ti → ti.state = .scheduled → ti.executorRef = .none

theorem Footprint.expands_detached {v : View} {ti : TaskInstance} (expands : v.Expands ti) : ti.executorRef = .none := expands.2.2.1

theorem Footprint.rewrites_detached {v : View} {ti : TaskInstance} (rewrites : v.Rewrites env ti) (waits : ti.state = .scheduled) :
    ti.executorRef = .none := by
  cases rewrites with
  | settles _ _ _ _ _ ended =>
    rw [waits] at ended
    cases ended
  | cancels _ _ _ _ ended => cases ended.symm.trans waits
  | requeues _ _ _ _ reset => rw [reset, TaskInstance.reset]
  | resets _ _ _ _ _ _ ref => exact ref
  | releases _ _ _ _ _ _ _ reset => rw [reset, TaskInstance.reset]
  | marks _ _ _ _ target =>
    rw [waits] at target
    cases target
  | dispatches _ _ _ _ _ _ _ _ _ _ queued =>
    rw [queued] at waits
    cases waits
  | attaches _ _ _ _ _ _ _ running =>
    rw [running] at waits
    cases waits
  | refuses _ _ _ _ _ failed =>
    rw [failed] at waits
    cases waits

theorem Footprint.concludes_detached {v : View} {c ti : TaskInstance} (concludes : v.Concludes c ti) (waits : ti.state = .scheduled) :
    ti.executorRef = .none := by
  cases concludes with
  | runs _ state => cases state.symm.trans waits
  | succeeds _ state =>
    rcases state with success | skipped
    · cases success.symm.trans waits
    · cases skipped.symm.trans waits
  | fails _ state =>
    rw [waits] at state
    split at state <;> cases state
  | timesOut _ _ state => cases state.symm.trans waits
  | givesBack _ _ _ _ _ ref => exact ref

/-- No statement that a goroutine may issue attaches anything to a task that waits. -/
theorem Footprint.detached {tid : Nat} {o : Op} {a : Answer} {w w' : World} {reply : o.Reply} {spawned : List Request} {v : View}
    (permitted : Footprint env o v) (performed : World.perform tid o a w = some (reply, w', spawned)) (detached : Detached w.db) :
    Detached w'.db := by
  intro key ti found waits
  rcases World.perform_instance? performed key with same | changed
  · exact detached key ti (same ▸ found) waits
  · cases o with
    | createTaskInstance row =>
      obtain ⟨_, _, now⟩ := changed
      cases found.symm.trans now
      exact permitted.2.2.1
    | updateTaskInstance row =>
      obtain ⟨_, _, now⟩ := changed
      cases found.symm.trans now
      exact rewrites_detached permitted waits
    | updateTaskInstanceGuarded row ref =>
      obtain ⟨_, _, _, _, now⟩ := changed
      cases found.symm.trans now
      obtain ⟨_, _, _, _, concludes⟩ := permitted
      exact concludes_detached concludes waits
    | _ => exact changed.elim

/-- It holds at every moment of every run of the process. -/
theorem detached_reaches {w : World} (start : Detached w.db) {p : State}
    (reaches : (scheduler env).Reaches (fun _ _ => True) (idle w) p) : Detached p.state.db := by
  refine @Reaches.keeps env _ (fun p => Detached p.state.db) _ _ reaches (fun tid thread none => absurd none (by simp [idle])) start ?_
  intro p move detached _ stepped
  generalize (scheduler env).step p move = q at stepped
  cases stepped with
  | idle => exact detached
  | performs next issuer permitted honest performed threads history => exact permitted.detached performed detached
  | starts admitted state threads history => exact state ▸ detached
  | restarts state threads history => rw [state]; exact detached

/-- The copies of a section that wait hold no reference either. -/
def View.Detached (v : View) : Prop := ∀ c ∈ v.hand, c.state = .scheduled → c.executorRef = .none

theorem View.Detached.after {tid : Nat} {o : Op} {a : Answer} {w w' : World} {reply : o.Reply} {spawned : List Request} {v : View}
    (hand : v.Detached) (permitted : Footprint env o v) (performed : World.perform tid o a w = some (reply, w', spawned))
    (detached : Scheduler.Detached w.db) : (v.after o reply).Detached := by
  intro c held waits
  cases o with
  | lock what => cases held
  | unlock => cases held
  | listTaskInstances run =>
    obtain ⟨_, _, read⟩ := World.read_some performed
    rcases List.mem_append.mp held with new | old
    · rcases read with rfl | rfl
      · exact detached c.key c ((DB.mem_listTaskInstances run c).mp new).1 waits
      · cases new
    · exact hand c old waits
  | listTaskInstancesByState state =>
    obtain ⟨_, _, read⟩ := World.read_some performed
    rcases List.mem_append.mp held with new | old
    · rcases read with rfl | rfl
      · exact detached c.key c (DB.mem_listTaskInstancesByState.mp new).1 waits
      · cases new
    · exact hand c old waits
  | getTaskInstance key =>
    obtain ⟨_, _, read⟩ := World.read_some performed
    cases reply with
    | error e => exact hand c held waits
    | ok ti =>
      rcases List.mem_cons.mp held with rfl | old
      · rcases read with read | read
        · have found := (getTaskInstance_ok read.symm).1
          exact detached c.key c (DB.instance?_of_mem found) waits
        · cases read
      · exact hand c old waits
  | createTaskInstance ti =>
    cases reply with
    | error e => exact hand c held waits
    | ok _ =>
      rcases List.mem_cons.mp held with rfl | old
      · exact Footprint.expands_detached permitted
      · exact hand c old waits
  | updateTaskInstance ti =>
    cases reply with
    | error e => exact hand c held waits
    | ok _ =>
      rcases List.mem_cons.mp held with rfl | old
      · exact Footprint.rewrites_detached permitted waits
      · split at old
        · exact hand c (List.mem_filter.mp old).1 waits
        · exact hand c old waits
  | updateTaskInstanceGuarded ti ref =>
    obtain ⟨_, _, _, _, concludes⟩ := permitted
    rcases List.mem_cons.mp held with rfl | old
    · exact Footprint.concludes_detached concludes waits
    · exact hand c old waits
  | _ => exact hand c held waits

end Detached

/-! ### The gate -/

section Gate

variable {env : Env} {cached : DagID → Option CachedDAG} {running queued promoted : List DagRun} {run : DagRun} {p : Promotion}
  {v : List DagRun}

/-- The cache stays as it is while the tick looks DAGs up. -/
def FromCache (cached : DagID → Option CachedDAG) : (o : Op) → o.Reply → Prop
  | .cachedDAG dag, reply => reply = cached dag
  | _, _ => True

/-- One round of the promotion, as the gate decides it. -/
inductive PromotionTurn (env : Env) (cached : DagID → Option CachedDAG) (p : Promotion) (v : List DagRun) (run : DagRun) :
    Promotion → List DagRun → Prop where
  | barred (closed : env.maxActiveRunsGlobal ≤ p.globalRunning ∨ run.held = true ∨
      gateLimit (cached run.dagID) ≤ p.running run.dagID) : PromotionTurn env cached p v run p v
  | handed (ready : List ReadyTask) (room : p.globalRunning < env.maxActiveRunsGlobal) (free : run.held = false)
      (below : p.running run.dagID < gateLimit (cached run.dagID)) :
      PromotionTurn env cached p v run
        ⟨Function.update p.running run.dagID (p.running run.dagID + 1), p.globalRunning + 1, ready⟩ (v ++ [run])

theorem promoteRun_turns (p : Promotion) (run : DagRun) (v : List DagRun) :
    (promoteRun env p run).Safe (handing (FromCache cached)) (Prog.returns fun q u => PromotionTurn env cached p v run q u) v := by
  unfold promoteRun
  split
  · rename_i barred
    exact .barred (barred.imp id .inl)
  · rename_i open_
    obtain ⟨room, free⟩ := not_or.mp open_
    refine Prog.Safe.tracked trivial fun entry answered => ?_
    obtain rfl : entry = cached run.dagID := answered
    have same : handsAfter v (.cachedDAG run.dagID) (cached run.dagID) = v := List.append_nil v
    rw [same]
    show Prog.Safe _ (if p.running run.dagID ≥ gateLimit (cached run.dagID) then do
        if gatePolicy (cached run.dagID) = .serialDiscard then discardRun run
        pure p
      else do
        let collected ← processRun env run
        pure ⟨Function.update p.running run.dagID (p.running run.dagID + 1), p.globalRunning + 1, p.ready ++ collected⟩ :
      Act Promotion) _ v
    split
    · rename_i closed
      have shut : PromotionTurn env cached p v run p v := .barred (.inr (.inr closed))
      split
      · refine Prog.Safe.andThen _ (discardRun_completes (handing_plain v) run v rfl) fun _ u kept => ?_
        subst kept
        exact shut
      · exact shut
    · rename_i below
      refine Prog.Safe.andThen _ (processRun_hands run v) fun collected u handed => ?_
      subst handed
      exact .handed _ (Int.not_le.mp room) (by simpa using free) (Int.not_le.mp below)

/-- Every queued run drains in the order of its DAG's policy. -/
theorem priorityDAGs_cached (queued : List DagRun) (v : List DagRun) :
    (priorityDAGs queued).Safe (handing (FromCache cached)) (Prog.returns fun priority u =>
      u = v ∧ ∀ r ∈ queued, priority r.dagID = (gatePolicy (cached r.dagID) == .serialPriority)) v := by
  apply Prog.Safe.fold fun rest known u => u = v ∧
    ∀ r ∈ queued, r.dagID ∈ rest ∨ known r.dagID = (gatePolicy (cached r.dagID) == .serialPriority)
  · exact ⟨rfl, fun r member => .inl (List.mem_dedup.mpr (List.mem_map_of_mem member))⟩
  · intro dag rest known u kept
    obtain ⟨rfl, known_⟩ := kept
    refine Prog.Safe.tracked trivial fun entry answered => ?_
    obtain rfl : entry = cached dag := answered
    refine ⟨List.append_nil _, fun r member => ?_⟩
    by_cases same : r.dagID = dag
    · right
      rw [same, Function.update_self]
      exact any_serialPriority (cached dag)
    · rw [Function.update_of_ne same]
      exact (known_ r member).imp_left fun among => (List.mem_cons.mp among).resolve_left same
  · exact fun known u kept => ⟨kept.1, fun r member => (kept.2 r member).resolve_left (by simp)⟩

/-- The runs of the DAG that are not held. -/
def freeOf (dag : DagID) (runs : List DagRun) : List DagRun := (runs.filter (·.dagID == dag)).filter (!·.held)

def countOf (dag : DagID) (runs : List DagRun) : Int := runs.countP (·.dagID == dag)

/-- No more runs of the DAG are handed over. -/
def Promotion.Closed (env : Env) (cached : DagID → Option CachedDAG) (p : Promotion) (dag : DagID) : Prop :=
  env.maxActiveRunsGlobal ≤ p.globalRunning ∨ gateLimit (cached dag) ≤ p.running dag

/-- What the gate has let through: no run that is held, no more than the limits allow, and of each
DAG the first ones of its queue. -/
structure LetThrough (env : Env) (cached : DagID → Option CachedDAG) (listed running : List DagRun) (queue : DagID → List DagRun)
    (promoted : List DagRun) : Prop where
  among : ∀ r ∈ promoted, r ∈ listed ∧ r.held = false
  room : promoted ≠ [] → (running.length + promoted.length : Int) ≤ env.maxActiveRunsGlobal
  below : ∀ dag, 0 < countOf dag promoted → countOf dag running + countOf dag promoted ≤ gateLimit (cached dag)
  first : ∀ dag, promoted.filter (·.dagID == dag) <+: queue dag

/-- What the loop keeps of its counts. -/
structure Gating (env : Env) (cached : DagID → Option CachedDAG) (running done promoted : List DagRun) (p : Promotion) : Prop
    extends LetThrough env cached done running (fun dag => freeOf dag done) promoted where
  total : p.globalRunning = running.length + promoted.length
  each : ∀ dag, p.running dag = countOf dag running + countOf dag promoted
  all : ∀ dag, p.Closed env cached dag ∨ promoted.filter (·.dagID == dag) = freeOf dag done

theorem freeOf_append (dag : DagID) (runs : List DagRun) (run : DagRun) :
    freeOf dag (runs ++ [run]) = freeOf dag runs ++ if run.dagID = dag ∧ run.held = false then [run] else [] := by
  unfold freeOf
  rw [List.filter_append, List.filter_append]
  congr 1
  by_cases own : run.dagID = dag <;> cases held : run.held <;> simp [own, held]

theorem countOf_append (dag : DagID) (runs : List DagRun) (run : DagRun) :
    countOf dag (runs ++ [run]) = countOf dag runs + if run.dagID = dag then 1 else 0 := by
  unfold countOf
  rw [List.countP_append, List.countP_singleton]
  by_cases own : run.dagID = dag <;> simp [own]

theorem Gating.start (running : List DagRun) (ready : List ReadyTask) :
    Gating env cached running [] [] ⟨fun dag => running.countP (·.dagID == dag), running.length, ready⟩ where
  among _ member := nomatch member
  room some := absurd rfl some
  below _ some := absurd some (by simp [countOf])
  first _ := List.prefix_refl _
  total := by simp
  each _ := by simp [countOf]
  all _ := .inr rfl

theorem Gating.turn {done : List DagRun} {q : Promotion} {u : List DagRun} (gating : Gating env cached running done promoted p)
    (turn : PromotionTurn env cached p (running ++ promoted) run q u) :
    ∃ promoted', u = running ++ promoted' ∧ Gating env cached running (done ++ [run]) promoted' q := by
  cases turn with
  | barred closed =>
    refine ⟨promoted, rfl, { gating with among := fun r member => ?_, first := fun dag => ?_, all := fun dag => ?_ }⟩
    · exact (gating.among r member).imp_left (List.mem_append_left _)
    · rw [freeOf_append]
      exact (gating.first dag).trans (List.prefix_append _ _)
    · rw [freeOf_append]
      split
      · rename_i own
        obtain ⟨rfl, free⟩ := own
        rcases closed with full | held | spent
        · exact .inl (.inl full)
        · rw [free] at held
          cases held
        · exact .inl (.inr spent)
      · rw [List.append_nil]
        exact gating.all dag
  | handed ready room free below =>
    refine ⟨promoted ++ [run], (List.append_assoc _ _ _), ?_⟩
    have whole : promoted.filter (·.dagID == run.dagID) = freeOf run.dagID done := by
      rcases gating.all run.dagID with (full | spent) | whole
      · exact absurd room (Int.not_lt.mpr full)
      · exact absurd below (Int.not_lt.mpr spent)
      · exact whole
    have grown (dag : DagID) : (promoted ++ [run]).filter (·.dagID == dag) =
        promoted.filter (·.dagID == dag) ++ if run.dagID = dag ∧ run.held = false then [run] else [] := by
      rw [List.filter_append]
      by_cases own : run.dagID = dag <;> simp [own, free]
    have each (dag : DagID) : Function.update p.running run.dagID (p.running run.dagID + 1) dag =
        countOf dag running + countOf dag (promoted ++ [run]) := by
      rw [countOf_append]
      by_cases own : run.dagID = dag
      · subst own
        rw [Function.update_self, gating.each, if_pos rfl]
        omega
      · rw [Function.update_of_ne (Ne.symm own), gating.each, if_neg own]
        omega
    refine { among := fun r member => ?_, room := fun _ => ?_, below := fun dag some => ?_, first := fun dag => ?_,
             total := ?_, each := each, all := fun dag => ?_ }
    · rcases List.mem_append.mp member with old | new
      · exact (gating.among r old).imp_left (List.mem_append_left _)
      · rw [List.mem_singleton.mp new]
        exact ⟨List.mem_append_right _ (.head _), free⟩
    · rw [List.length_append, List.length_singleton]
      have counted := gating.total
      omega
    · rw [countOf_append] at some ⊢
      by_cases own : run.dagID = dag
      · subst own
        have counted := gating.each run.dagID
        rw [if_pos rfl]
        omega
      · rw [if_neg own] at some ⊢
        have before := gating.below dag (by omega)
        omega
    · rw [grown, freeOf_append]
      by_cases own : run.dagID = dag
      · subst own
        exact ⟨[], by rw [whole, List.append_nil]⟩
      · rw [if_neg (fun both => own both.1), List.append_nil, List.append_nil]
        exact gating.first dag
    · rw [List.length_append, List.length_singleton]
      have counted := gating.total
      dsimp only
      omega
    · rw [grown, freeOf_append]
      rcases gating.all dag with (full | spent) | all
      · left
        left
        dsimp only
        omega
      · left
        right
        dsimp only
        rw [each, countOf_append]
        have counted := gating.each dag
        split <;> omega
      · exact .inr (by rw [all])

/-- `processActiveRuns` after both listings. -/
def advanceRuns (env : Env) (queued running : List DagRun) : Act Unit := do
  let ready ← Prog.fold (fun ready run => do
    let collected ← processRun env run
    pure (ready ++ collected)) running []
  let priority ← priorityDAGs queued
  let promoted ← Prog.fold (promoteRun env) (reorderPriorityQueues priority queued)
    ⟨fun dag => running.countP (·.dagID == dag), running.length, ready⟩
  admitReady env promoted.ready

/-- The runs of the DAG in the listing that may be promoted, in the order of the drain. -/
def freeQueue (cached : DagID → Option CachedDAG) (queued : List DagRun) (dag : DagID) : List DagRun :=
  (drainOrder (gatePolicy (cached dag) == .serialPriority) (queued.filter (·.dagID == dag))).filter (!·.held)

/-- What the gate has let through of a listing. -/
abbrev Promoted (env : Env) (cached : DagID → Option CachedDAG) (queued running promoted : List DagRun) : Prop :=
  LetThrough env cached queued running (freeQueue cached queued) promoted

theorem advanceRuns_hands : (advanceRuns env queued running).Safe (handing (FromCache cached)) (Prog.returns fun _ u =>
    ∃ promoted, u = running ++ promoted ∧ Promoted env cached queued running promoted) [] := by
  refine Prog.Safe.andThen _ (sweep_hands running [] []) fun ready v swept => ?_
  have swept : v = running := swept
  subst swept
  refine Prog.Safe.andThen _ (priorityDAGs_cached queued v) fun priority u drains => ?_
  obtain ⟨rfl, drains⟩ := drains
  refine Prog.Safe.andThen (fun p w => ∃ promoted, w = u ++ promoted ∧ Promoted env cached queued u promoted) ?_
    fun p w through => ?_
  · -- what has had its turn, and what is still to come
    apply Prog.Safe.fold fun rest p w => ∃ done promoted, done ++ rest = reorderPriorityQueues priority queued ∧
      w = u ++ promoted ∧ Gating env cached u done promoted p
    · exact ⟨[], [], rfl, (List.append_nil _).symm, Gating.start u ready⟩
    · rintro run rest p w ⟨done, promoted, whole, rfl, gating⟩
      refine (promoteRun_turns p run _).mono fun result x turn => ?_
      cases result with
      | error e => exact turn.elim
      | ok q =>
        obtain ⟨promoted', rfl, gating'⟩ := gating.turn turn
        exact ⟨done ++ [run], promoted', by rw [← whole, List.append_assoc]; rfl, rfl, gating'⟩
    · rintro p w ⟨done, promoted, whole, rfl, gating⟩
      rw [List.append_nil] at whole
      subst whole
      have order (dag : DagID) : freeOf dag (reorderPriorityQueues priority queued) = freeQueue cached queued dag := by
        unfold freeOf freeQueue
        rw [filter_reorderPriorityQueues]
        by_cases listed : ∃ r ∈ queued, r.dagID = dag
        · obtain ⟨r, member, rfl⟩ := listed
          rw [drains r member]
        · have none : queued.filter (·.dagID == dag) = [] :=
            List.filter_eq_nil_iff.mpr fun r member own => listed ⟨r, member, beq_iff_eq.mp own⟩
          rw [none]
          cases priority dag <;> cases gatePolicy (cached dag) == .serialPriority <;> rfl
      refine ⟨promoted, rfl, ⟨fun r member => ?_, gating.room, gating.below, fun dag => ?_⟩⟩
      · exact (gating.among r member).imp_left mem_reordered.mp
      · exact order dag ▸ gating.first dag
  · refine Prog.Safe.mono (admitReady_completes (handing_frame w) (fun _ => Op.Plain.hands) rfl rfl p.ready w rfl) ?_
    intro result x ended
    cases result with
    | error e => exact ended.elim
    | ok _ =>
      obtain rfl : x = w := ended
      exact through

theorem LetThrough.nothing {queue : DagID → List DagRun} : LetThrough env cached queued running queue [] where
  among _ member := nomatch member
  room some := absurd rfl some
  below _ some := absurd some (by simp [countOf])
  first _ := List.nil_prefix

/-- The first ones of those that the gate lets through. -/
theorem LetThrough.front {queue : DagID → List DagRun} {promoted later : List DagRun}
    (through : LetThrough env cached queued running queue (promoted ++ later)) : LetThrough env cached queued running queue promoted where
  among r member := through.among r (List.mem_append_left _ member)
  room some := by
    have whole := through.room (List.append_ne_nil_of_left_ne_nil some _)
    rw [List.length_append] at whole
    omega
  below dag some := by
    have whole := through.below dag
    unfold countOf at some whole ⊢
    rw [List.countP_append] at whole
    omega
  first dag := by
    have whole := through.first dag
    rw [List.filter_append] at whole
    exact (List.prefix_append _ _).trans whole

theorem handedRuns_issue (log : List (Issued statements)) (issued : Issued statements) :
    handedRuns (log ++ [issued]) = handedRuns log ++ Op.hands issued.1 :=
  @Prog.view_append statements (List DagRun) handsAfter [] log issued

theorem handedRuns_append (log more : List (Issued statements)) : handedRuns (log ++ more) = handedRuns log ++ handedRuns more := by
  induction more using List.reverseRecOn with
  | nil => exact (congrArg handedRuns (List.append_nil log)).trans (List.append_nil _).symm
  | append_singleton more issued ih => rw [← List.append_assoc, handedRuns_issue, handedRuns_issue, ih, List.append_assoc]

/-- At any moment of it, the pass has handed over some of the running runs, or all of them and what
the gate has let through so far. -/
theorem advanceRuns_handed {log : List (Issued statements)} {rest : Act Unit}
    (after : Prog.After (advanceRuns env queued running) log rest)
    (cache : ∀ issued ∈ log, FromCache cached issued.1 issued.2) :
    ∃ promoted, handedRuns log = running.take (handedRuns log).length ++ promoted ∧ Promoted env cached queued running promoted := by
  -- the pass may go on to its end
  let h : Handler statements Unit := fun o _ => (match o with
    | .cachedDAG dag => cached dag
    | o => o.idle, ())
  have onward := Prog.After.recorded h after ()
  obtain ⟨more, whole⟩ := Prog.recorded_extends rest log h ()
  rw [whole] at onward
  have replies : ∀ issued ∈ log ++ more, FromCache cached issued.1 issued.2 := by
    intro issued member
    rw [← whole] at member
    rcases Prog.recorded_replies h () member with before | ⟨_, given⟩
    · exact cache issued before
    · obtain ⟨o, reply⟩ := issued
      dsimp only at given
      subst given
      cases o <;> trivial
  have ended := onward.safe replies advanceRuns_hands
  revert ended
  generalize (rest.run (Prog.recorded h) ((), log)).1 = result
  intro ended
  cases result with
  | error e => exact ended.elim
  | ok _ =>
    obtain ⟨promoted, all, through⟩ := ended
    change handedRuns (log ++ more) = _ at all
    rw [handedRuns_append] at all
    rcases List.append_eq_append_iff.mp all with ⟨left, rfl, _⟩ | ⟨front, split, rfl⟩
    · exact ⟨[], by simp, .nothing⟩
    · refine ⟨front, ?_, through.front⟩
      rw [split, List.take_of_length_le (by simp)]

end Gate

/-! ### The pass and the store -/

section Pass

variable {env : Env} {w v : World} {log : List (Issued statements)} {q : Act Unit}

/-- A pass that has the store to itself. Every statement but the listing of the running runs may fail. -/
def passing : Contract statements (World × List (Issued statements)) where
  step o s reply t := t.2 = s.2 ++ [⟨o, reply⟩] ∧ ∃ tid a spawned, (∀ state, o = .listDagRunsByState state → a.served = true) ∧
    World.perform tid o a s.1 = some (reply, t.1, spawned)
  inv _ := True
  rely := Eq
  may _ _ := True

/-- A program after one statement for each answer, beside nothing else. -/
def follow : List Answer → Act Unit → World × List (Issued statements) → Act Unit × World × List (Issued statements)
  | a :: answers, .call o k, s => match World.perform 0 o a s.1 with
    | some (reply, v, _) => follow answers (k reply) (v, s.2 ++ [⟨o, reply⟩])
    | none => (.call o k, s)
  | _, p, s => (p, s)

theorem follow_passing (answers : List Answer) (served : ∀ a ∈ answers, a.served = true) {p q : Act Unit}
    {start s : World × List (Issued statements)} (ran : Prog.Exec passing p start q s) :
    Prog.Exec passing p start (follow answers q s).1 (follow answers q s).2 := by
  induction answers generalizing q s with
  | nil => cases q <;> exact ran
  | cons a answers ih =>
    cases q with
    | done a => exact ran
    | fail e => exact ran
    | call o k =>
      rw [follow]
      cases performed : World.perform 0 o a s.1 with
      | none => exact ran
      | some outcome =>
        obtain ⟨reply, v, spawned⟩ := outcome
        exact ih (fun b member => served b (.tail _ member))
          (.issue ran ⟨rfl, 0, a, spawned, fun _ _ => served a (.head _), performed⟩)

/-- What the pass knows by its own statements. -/
abbrev passView (log : List (Issued statements)) : View := Prog.view View.after (View.start .tick) log

/-- What holds of the store at any moment of a pass from `w`. -/
structure Passing (env : Env) (w v : World) (log : List (Issued statements)) : Prop where
  cached : v.cache = w.cache
  replies : ∀ issued ∈ log, FromCache w.cached issued.1 issued.2 ∧ issued.1.honest issued.2
  detached : Detached v.db
  hand : (passView log).Detached
  inside : ∀ run, (passView log).inside = some (.process run) → run ∈ handedRuns log
  keys : ∀ id row, w.db.run? id = some row → ∃ row', v.db.run? id = some row' ∧ runKey row' = runKey row
  running : ∀ id row, v.db.run? id = some row → row.state = .running →
    (∃ old, w.db.run? id = some old ∧ old.state = .running) ∨ ∃ run ∈ handedRuns log, run.runID = id

theorem passView_append (log : List (Issued statements)) (o : Op) (reply : o.Reply) :
    passView (log ++ [⟨o, reply⟩]) = (passView log).after o reply :=
  @Prog.view_append statements View View.after _ log ⟨o, reply⟩

theorem passView_origin (log : List (Issued statements)) : (passView log).origin = .tick := view_origin _ log

/-- A tick does not touch the cache. -/
theorem Footprint.keepsCache {o : Op} {u : View} (permitted : Footprint env o u) (tick : u.origin = .tick) : o.onCache = false := by
  cases o with
  | publishDAG d schedule =>
    obtain ⟨⟨_, ⟨_, created, _⟩ | ⟨scans, _⟩⟩, _⟩ := permitted
    · cases created.symm.trans tick
    · rw [tick] at scans
      cases scans
  | evictDAG dag => cases permitted.1.symm.trans tick
  | pauseCached dag paused => cases permitted.1.symm.trans tick
  | _ => rfl

theorem View.inside_after {u : View} {o : Op} {reply : o.Reply} {run : DagRun}
    (inside : (u.after o reply).inside = some (.process run)) : u.inside = some (.process run) ∨ o.hands = [run] := by
  cases o with
  | lock what =>
    obtain rfl : what = .process run := by simpa [View.after, View.learns] using inside
    exact .inr rfl
  | unlock => cases inside
  | _ => exact .inl inside

/-- A tick makes only the run running that it processes. -/
theorem Footprint.runs_inside {id : RunID} {started finished : Option Calendar.Time} {u : View}
    (permitted : Footprint env (.updateDagRunState id .running started finished) u) (tick : u.origin = .tick) (hand : u.Detached) :
    ∃ run, u.inside = some (.process run) ∧ run.runID = id := by
  rcases permitted with ⟨run, promotes, _⟩ | ⟨retries, _⟩ | ⟨task, target, origin, _⟩
  · obtain ⟨inside, own, _⟩ := View.promotion_some promotes
    exact ⟨run, inside, own⟩
  · cases retries with
    | task _ origin _ => cases origin.symm.trans tick
    | run origin _ => cases origin.symm.trans tick
    | child parent c _ _ held scheduled ref =>
      rw [hand c held scheduled] at ref
      cases ref
  · cases origin.symm.trans tick

theorem Passing.performs {tid : Nat} {o : Op} {a : Answer} {v' : World} {reply : o.Reply} {spawned : List Request}
    (passing : Passing env w v log) (permitted : Footprint env o (passView log))
    (performed : World.perform tid o a v = some (reply, v', spawned)) : Passing env w v' (log ++ [⟨o, reply⟩]) := by
  have tick := passView_origin log
  obtain ⟨cache, _, _, _⟩ := World.perform_some performed
  have still {run : DagRun} (handed : run ∈ handedRuns log) : run ∈ handedRuns (log ++ [⟨o, reply⟩]) := by
    rw [handedRuns_issue]
    exact List.mem_append_left _ handed
  refine ⟨(cache (permitted.keepsCache tick)).trans passing.cached, fun issued member => ?_,
    permitted.detached performed passing.detached, ?_, fun run inside => ?_, fun id row found => ?_, fun id row found runs => ?_⟩
  · rcases List.mem_append.mp member with before | new
    · exact passing.replies issued before
    · obtain rfl := List.mem_singleton.mp new
      refine ⟨?_, World.perform_honest performed⟩
      cases o with
      | cachedDAG dag =>
        show reply = w.cached dag
        rw [World.perform_cachedDAG performed, World.cached, passing.cached]
        rfl
      | _ => trivial
  · rw [passView_append]
    exact passing.hand.after permitted performed passing.detached
  · rw [passView_append] at inside
    rcases View.inside_after inside with before | enters
    · exact still (passing.inside run before)
    · rw [handedRuns_issue, enters]
      exact List.mem_append_right _ (.head _)
  · obtain ⟨mid, between, key⟩ := passing.keys id row found
    obtain ⟨row', found', key'⟩ := World.perform_persists performed between
    exact ⟨row', found', key'.trans key⟩
  · by_cases write : ∃ other started finished, o = .updateDagRunState other .running started finished
    · obtain ⟨other, started, finished, rfl⟩ := write
      by_cases own : id = other
      · subst own
        obtain ⟨run, inside, same⟩ := permitted.runs_inside tick passing.hand
        exact .inr ⟨run, still (passing.inside run inside), same⟩
      · rcases World.perform_run? performed id with same | changed
        · exact (passing.running id row (same ▸ found) runs).imp_right (Exists.imp fun run found => ⟨still found.1, found.2⟩)
        · exact absurd changed.1 (Ne.symm own)
    · have calmer := @Footprint.calmer row.dagID _ _ _ _ _ _ _ _ _ permitted performed fun id started finished same => write ⟨id, started, finished, same⟩
      obtain ⟨old, stored, _, ran⟩ := calmer id row found rfl runs
      exact (passing.running id old stored ran).imp_right (Exists.imp fun run found => ⟨still found.1, found.2⟩)

/-- The statements that a program has issued beside nothing else. -/
theorem passing_after {p q : Act Unit} {s t : World × List (Issued statements)} (ran : Prog.Exec passing p s q t) :
    ∃ more, t.2 = s.2 ++ more ∧ Prog.After p more q := by
  induction ran with
  | refl s => exact ⟨[], (List.append_nil _).symm, .start⟩
  | others _ same ih =>
    have same : _ = _ := same
    exact same ▸ ih
  | @issue o k s t u reply _ stepped ih =>
    obtain ⟨more, log, after⟩ := ih
    exact ⟨more ++ [⟨o, reply⟩], by rw [stepped.1, log, List.append_assoc], after.issue reply⟩

/-- The first statement of a program beside which nothing happens. -/
theorem passing_first {o : Op} {k : o.Reply → Act Unit} {q : Act Unit} {s t : World × List (Issued statements)}
    (ran : Prog.Exec passing (.call o k) s q t) : (q = .call o k ∧ t = s) ∨
      ∃ reply u, passing.step o s reply u ∧ Prog.Exec passing (k reply) u q t := by
  induction ran with
  | refl s => exact .inl ⟨rfl, rfl⟩
  | others _ same ih =>
    have same : _ = _ := same
    exact same ▸ ih
  | issue _ stepped ih =>
    rcases ih with ⟨same, rfl⟩ | ⟨reply, u, first, ran⟩
    · cases same
      exact .inr ⟨_, _, stepped, .refl _ _⟩
    · exact .inr ⟨reply, u, first, .issue ran stepped⟩

theorem Passing.start (detached : Detached w.db) : Passing env w w [] where
  cached := rfl
  replies _ member := nomatch member
  detached := detached
  hand _ member := nomatch member
  inside _ inside := nomatch inside
  keys _ row found := ⟨row, found, rfl⟩
  running _ row found runs := .inl ⟨row, found, runs⟩

/-- It holds at every moment of the pass. -/
theorem passing_keeps (detached : Detached w.db) {t : World × List (Issued statements)}
    (ran : Prog.Exec passing (processActiveRuns env) (w, []) q t) : Passing env w t.1 t.2 := by
  have safe : (processActiveRuns env).Safe (footprint env) (fun _ _ => True) (View.start .tick) :=
    (processActiveRuns_conduct rfl rfl).mono fun _ _ _ => trivial
  suffices Prog.After (processActiveRuns env) t.2 q ∧ Passing env w t.1 t.2 from this.2
  generalize start : ((w, []) : World × List (Issued statements)) = s at ran
  induction ran with
  | refl => exact start ▸ ⟨.start, .start detached⟩
  | others _ same ih =>
    have same : _ = _ := same
    exact same ▸ ih start
  | @issue o k s t u reply _ stepped ih =>
    obtain ⟨after, kept⟩ := ih start
    obtain ⟨log, tid, a, spawned, _, performed⟩ := stepped
    have permitted : Footprint env o (passView t.2) :=
      (after.safe (fun issued member => (kept.replies issued member).2) safe _ rfl trivial).1
    rw [log]
    exact ⟨after.issue reply, kept.performs permitted performed⟩

theorem drop_of_take {A : Type} {all front rest : List A} (whole : all = front.take all.length ++ rest) :
    all.drop front.length = rest := by
  have lengths := congrArg List.length whole
  rw [List.length_append, List.length_take] at lengths
  rcases Nat.le_total front.length all.length with whole' | some
  · rw [List.take_of_length_le whole'] at whole
    rw [whole, List.drop_left]
  · rw [List.eq_nil_of_length_eq_zero (show rest.length = 0 by omega), List.drop_eq_nil_of_le some]

/-- The runs that the pass has handed over besides those that were running. -/
def promotedRuns (w : World) (log : List (Issued statements)) : List DagRun :=
  (handedRuns log).drop (w.db.listDagRunsByState .running).length

/-- The window of queued runs that the pass reads. -/
def windowOf (env : Env) (w : World) : List DagRun := w.db.listDagRunsByStateLimited .queued (env.maxActiveRunsGlobal + 500)

/-- The two listings with which a pass begins. -/
def Op.lists : Op → Bool
  | .listDagRunsByState _ | .listDagRunsByStateLimited _ _ => true
  | _ => false

theorem passing_seconds {t : World × List (Issued statements)} (queued : List DagRun) (window : queued = windowOf env w ∨ queued = []) {first : Issued statements}
    (lists : Op.lists first.1 = true) (onward : Prog.Exec passing (do
      let running ← match ← (listDagRunsByState .running).attempt with
        | .ok running => pure running
        | .error _ => pure []
      advanceRuns env queued running) (w, [first]) q t) :
    (handedRuns t.2 = [] ∧ ∃ (o : Op) (k : o.Reply → Act Unit), o.lists = true ∧ q = .call o k) ∨
    ∃ queued more, ∃ first second : Issued statements, (queued = windowOf env w ∨ queued = []) ∧
      (Op.lists first.1 = true ∧ Op.lists second.1 = true) ∧ t.2 = first :: second :: more ∧
      Prog.After (advanceRuns env queued (w.db.listDagRunsByState .running)) more q := by
  rcases passing_first onward with ⟨at_, rfl⟩ | ⟨reply, u, listed, onward⟩
  · left
    refine ⟨?_, _, _, rfl, at_⟩
    obtain ⟨o, reply⟩ := first
    cases o with
    | listDagRunsByState | listDagRunsByStateLimited => rfl
    | _ => cases lists
  · obtain ⟨log₂, tid, answer, spawned, served, performed⟩ := listed
    have read : w.read answer (.ok (w.db.listDagRunsByState .running)) = some (reply, u.1, spawned) := performed
    rw [World.read_served (served _ rfl)] at read
    obtain rfl := (Prod.mk.inj (Option.some.inj read)).1
    obtain ⟨more, log, after⟩ := passing_after onward
    rw [log₂] at log
    exact .inr ⟨queued, more, first, _, window, ⟨lists, rfl⟩, log, after⟩

/-- A pass is at one of its listings, or past both: with the window or, if its listing failed, with
no queued run. -/
theorem passing_lists {t : World × List (Issued statements)} (ran : Prog.Exec passing (processActiveRuns env) (w, []) q t) :
    (handedRuns t.2 = [] ∧ ∃ (o : Op) (k : o.Reply → Act Unit), o.lists = true ∧ q = .call o k) ∨
    ∃ queued more, ∃ first second : Issued statements, (queued = windowOf env w ∨ queued = []) ∧
      (Op.lists first.1 = true ∧ Op.lists second.1 = true) ∧ t.2 = first :: second :: more ∧
      Prog.After (advanceRuns env queued (w.db.listDagRunsByState .running)) more q := by
  rcases passing_first ran with ⟨at_, rfl⟩ | ⟨reply, u, listed, onward⟩
  · exact .inl ⟨rfl, _, _, rfl, at_⟩
  · obtain ⟨log₁, tid, a, spawned, _, performed⟩ := listed
    obtain ⟨same, _, read⟩ := World.read_some performed
    obtain ⟨v, log⟩ := u
    dsimp only at log₁ same
    subst log₁
    subst same
    cases reply with
    | ok queued =>
      refine passing_seconds queued ?_ rfl onward
      rcases read with read | read
      · exact .inl (Except.ok.inj read)
      · cases read
    | error e => exact passing_seconds [] (.inr rfl) rfl onward

/-- The listings hand nothing over. -/
theorem handedRuns_lists {first second : Issued statements} (lists : Op.lists first.1 = true) (lists' : Op.lists second.1 = true)
    (more : List (Issued statements)) : handedRuns (first :: second :: more) = handedRuns more := by
  have quiet (issued : Issued statements) (lists : Op.lists issued.1 = true) : Op.hands issued.1 = [] := by
    obtain ⟨o, reply⟩ := issued
    cases o with
    | listDagRunsByState | listDagRunsByStateLimited => rfl
    | _ => cases lists
  have begun : handedRuns [first, second] = [] := by
    rw [show [first, second] = [] ++ [first] ++ [second] from rfl, handedRuns_issue, handedRuns_issue, quiet _ lists, quiet _ lists']
    rfl
  rw [show first :: second :: more = [first, second] ++ more from rfl, handedRuns_append, begun, List.nil_append]

/-- The pass hands the running runs over, and then what the gate lets through of the window. -/
theorem passing_promotes (detached : Detached w.db) {t : World × List (Issued statements)}
    (ran : Prog.Exec passing (processActiveRuns env) (w, []) q t) :
    handedRuns t.2 = (w.db.listDagRunsByState .running).take (handedRuns t.2).length ++ promotedRuns w t.2 ∧
      Promoted env w.cached (windowOf env w) (w.db.listDagRunsByState .running) (promotedRuns w t.2) := by
  have kept := passing_keeps detached ran
  rcases passing_lists ran with ⟨none, _⟩ | ⟨queued, more, first, second, window, ⟨lists, lists'⟩, log, after⟩
  · rw [promotedRuns, none, List.drop_nil]
    exact ⟨rfl, .nothing⟩
  · have handed : handedRuns t.2 = handedRuns more := by rw [log, handedRuns_lists lists lists']
    have cache : ∀ issued ∈ more, FromCache w.cached issued.1 issued.2 := fun issued member =>
      (kept.replies issued (log ▸ List.mem_cons_of_mem _ (List.mem_cons_of_mem _ member))).1
    obtain ⟨promoted, whole, through⟩ := advanceRuns_handed after cache
    rw [← handed] at whole
    have rest : promotedRuns w t.2 = promoted := drop_of_take whole
    refine ⟨by rw [rest]; exact whole, ?_⟩
    rw [rest]
    rcases window with rfl | rfl
    · exact through
    · have none : promoted = [] := List.eq_nil_iff_forall_not_mem.mpr fun r member => nomatch (through.among r member).1
      rw [none]
      exact .nothing

theorem listDagRunsByState_ids (db : DB) (state : RunState) : ((db.listDagRunsByState state).map (·.runID)).Nodup := by
  have perm : (db.listDagRunsByState state).Perm (db.runs.rows.filter (·.state == state)) := List.perm_insertionSort _ _
  rw [(perm.map _).nodup_iff]
  have apart := List.Pairwise.sublist (List.filter_sublist (p := (·.state == state)) |>.map runKey) db.runs.distinct
  rw [List.pairwise_map] at apart
  exact List.pairwise_map.mpr (apart.imp fun differ same => differ.1 same)

/-- Every run that is running was running before, or was promoted. -/
theorem passing_counts (detached : Detached w.db) {t : World × List (Issued statements)}
    (ran : Prog.Exec passing (processActiveRuns env) (w, []) q t) (dags : DagID → Bool) :
    (t.1.db.listDagRunsByState .running).countP (fun r => dags r.dagID) ≤
      (w.db.listDagRunsByState .running ++ promotedRuns w t.2).countP (fun r => dags r.dagID) := by
  have kept := passing_keeps detached ran
  obtain ⟨handed, through⟩ := passing_promotes detached ran
  suffices ids : (((t.1.db.listDagRunsByState .running).filter fun r => dags r.dagID).map (·.runID)).Subperm
      (((w.db.listDagRunsByState .running ++ promotedRuns w t.2).filter fun r => dags r.dagID).map (·.runID)) by
    have lengths := ids.length_le
    rwa [List.length_map, List.length_map, ← List.countP_eq_length_filter, ← List.countP_eq_length_filter] at lengths
  have distinct : (((t.1.db.listDagRunsByState .running).filter fun r => dags r.dagID).map (·.runID)).Nodup :=
    List.Nodup.sublist (List.filter_sublist.map _) (listDagRunsByState_ids _ _)
  refine List.subperm_of_subset distinct fun id member => ?_
  obtain ⟨row, selected, rfl⟩ := List.mem_map.mp member
  obtain ⟨listed, ofDAGs⟩ := List.mem_filter.mp selected
  obtain ⟨stored, runs⟩ := DB.mem_listDagRunsByState.mp listed
  -- a run keeps its DAG
  have same {old : DagRun} (was : old ∈ w.db.runs) (own : old.runID = row.runID) : dags old.dagID = true := by
    obtain ⟨row', found, key⟩ := kept.keys _ old (DB.run?_of_mem was)
    rw [own, DB.run?_of_mem stored] at found
    cases found
    rw [← show row.dagID = old.dagID from congrArg RunKey.dag key]
    exact ofDAGs
  have counted {old : DagRun} (was : old ∈ w.db.listDagRunsByState .running ++ promotedRuns w t.2) (own : old.runID = row.runID)
      (before : old ∈ w.db.runs) : row.runID ∈ ((w.db.listDagRunsByState .running ++ promotedRuns w t.2).filter
        fun r => dags r.dagID).map (·.runID) :=
    own ▸ List.mem_map_of_mem (List.mem_filter.mpr ⟨was, same before own⟩)
  rcases kept.running _ row (DB.run?_of_mem stored) runs with ⟨old, found, ran⟩ | ⟨run, member, own⟩
  · obtain ⟨before, own⟩ := DB.run?_some found
    exact counted (List.mem_append_left _ (DB.mem_listDagRunsByState.mpr ⟨before, ran⟩)) own before
  · rw [handed] at member
    rcases List.mem_append.mp member with front | promoted
    · have listed := List.mem_of_mem_take front
      exact counted (List.mem_append_left _ listed) own (DB.mem_listDagRunsByState.mp listed).1
    · exact counted (List.mem_append_right _ promoted) own (DB.mem_listDagRunsByStateLimited (through.among run promoted).1).1

/-- What a pass that starts in `w` has done by the time that the store is `v`. -/
structure WithinCaps (env : Env) (w v : World) (log : List (Issued statements)) : Prop where
  /-- Only queued runs that are not held are handed over besides the running ones. -/
  free : ∀ r ∈ promotedRuns w log, r ∈ windowOf env w ∧ r.held = false
  /-- Of each DAG, they are the first ones of its queue. -/
  first : ∀ dag, (promotedRuns w log).filter (·.dagID == dag) <+: freeQueue w.cached (windowOf env w) dag
  each : ∀ dag, countOf dag (v.db.listDagRunsByState .running) ≤
    max (countOf dag (w.db.listDagRunsByState .running)) (gateLimit (w.cached dag))
  total : ((v.db.listDagRunsByState .running).length : Int) ≤
    max ((w.db.listDagRunsByState .running).length : Int) env.maxActiveRunsGlobal

/-- The promotion respects every cap: from any state that the process can be in, at every moment
of a pass that has the store to itself. -/
theorem promotion_within_caps (env : Env) {w₀ : World} (start : Detached w₀.db) {p : State}
    (reaches : (scheduler env).Reaches (fun _ _ => True) (idle w₀) p) {q : Act Unit} {v : World} {log : List (Issued statements)}
    (ran : Prog.Exec passing (processActiveRuns env) (p.state, []) q (v, log)) : WithinCaps env p.state v log := by
  have detached := detached_reaches start reaches
  obtain ⟨_, through⟩ := passing_promotes detached ran
  dsimp only at through
  refine ⟨through.among, through.first, fun dag => ?_, ?_⟩
  · have counts := passing_counts detached ran (· == dag)
    rw [List.countP_append] at counts
    dsimp only at counts
    have below := through.below dag
    unfold countOf at below ⊢
    omega
  · have counts := passing_counts detached ran (fun _ => true)
    simp only [List.countP_true, List.length_append] at counts
    by_cases none : promotedRuns p.state log = []
    · rw [none, List.length_nil] at counts
      omega
    · have room := through.room none
      omega

/-- The run of a serial DAG that waits is promoted. -/
theorem waiting_run_promoted : ∃ (q : Act Unit) (v : World) (log : List (Issued statements)),
    Prog.Exec passing (processActiveRuns loadEnv) (serialWorld .queued, []) q (v, log) ∧
      (promotedRuns (serialWorld .queued) log).map (·.runID) = [.manual "etl" 1] ∧ WithinCaps loadEnv (serialWorld .queued) v log := by
  have entered := follow_passing (List.replicate 5 {}) (by simp)
    (.refl (processActiveRuns loadEnv) (serialWorld .queued, []))
  have detached : Detached (serialWorld .queued).db := by
    intro key ti found waits
    obtain ⟨member, _⟩ := DB.instance?_some found
    rw [List.mem_singleton.mp member] at waits
    cases waits
  exact ⟨_, _, _, entered, rfl, @promotion_within_caps loadEnv _ detached (idle _) (.refl _) _ _ _ entered⟩

end Pass

end Cronova.Scheduler
