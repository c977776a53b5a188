import Cronova.Scheduler.Backlog

/-! The reordered queue: a stable sort of each DAG's runs over the slots that the DAG has. -/

set_option autoImplicit false

namespace Cronova.Scheduler

open Model Store Process
open Calendar (Time)

/-! ### Stable sorting -/

section Stable

variable {A K : Type}

/-- Elements that go before each other keep their order, whatever the others are. -/
theorem filter_insertionSort (r : A → A → Prop) [DecidableRel r] (rows : List A) (tied : A → Bool)
    (together : ∀ a b, tied a = true → tied b = true → r a b) : (rows.insertionSort r).filter tied = rows.filter tied := by
  have sorted : (rows.filter tied).Pairwise r := by
    refine List.Pairwise.imp_of_mem (R := fun _ _ => True) ?_ (List.pairwise_of_forall fun _ _ => trivial)
    intro a b here there _
    exact together a b (List.mem_filter.mp here).2 (List.mem_filter.mp there).2
  have within := (List.sublist_insertionSort sorted List.filter_sublist).filter tied
  rw [List.filter_filter] at within
  simp only [Bool.and_self] at within
  exact (within.eq_of_length ((List.perm_insertionSort r rows).filter tied).length_eq.symm).symm

variable [BEq K] [LawfulBEq K]

/-- A list is known from the keys of its places and the elements of each key. -/
theorem eq_of_slots (key : A → K) {rows rows' : List A} (slots : rows.map key = rows'.map key)
    (same : ∀ k, rows.filter (key · == k) = rows'.filter (key · == k)) : rows = rows' := by
  induction rows generalizing rows' with
  | nil => exact (List.map_eq_nil_iff.mp slots.symm).symm
  | cons a rows ih =>
    cases rows' with
    | nil => cases slots
    | cons b rows' =>
      obtain ⟨first, rest⟩ := List.cons.inj slots
      have firsts := same (key a)
      rw [List.filter_cons_of_pos (by simp), List.filter_cons_of_pos (by simp [first])] at firsts
      obtain ⟨rfl, _⟩ := List.cons.inj firsts
      congr 1
      apply ih rest
      intro k
      have both := same k
      by_cases mine : key a = k
      · rw [List.filter_cons_of_pos (by simp [mine]), List.filter_cons_of_pos (by simp [mine])] at both
        exact (List.cons.inj both).2
      · rwa [List.filter_cons_of_neg (by simp [mine]), List.filter_cons_of_neg (by simp [mine])] at both

end Stable

/-! ### The queue -/

section Slots

variable {priority : DagID → Bool} {queue queued : List DagRun} {sorted : DagID → List DagRun}

/-- Every slot is taken by a run of its DAG, as long as the DAG has one left. -/
theorem map_refill (own : ∀ dag, ∀ r ∈ sorted dag, r.dagID = dag)
    (enough : ∀ dag, queue.countP (·.dagID == dag) ≤ (sorted dag).length) :
    (refill queue sorted).map (·.dagID) = queue.map (·.dagID) := by
  induction queue generalizing sorted with
  | nil => rfl
  | cons r rest ih =>
    have counted := enough r.dagID
    rw [List.countP_cons_of_pos (by simp)] at counted
    rw [refill]
    cases slot : sorted r.dagID with
    | nil => simp [slot] at counted
    | cons next later =>
      have mine : next.dagID = r.dagID := own _ next (by simp [slot])
      dsimp only
      rw [List.map_cons, List.map_cons, mine]
      congr 1
      apply ih
      · intro dag x member
        by_cases same : dag = r.dagID
        · subst same
          rw [Function.update_self] at member
          exact own _ x (by simp [slot, member])
        · rw [Function.update_of_ne same] at member
          exact own _ x member
      · intro dag
        by_cases same : dag = r.dagID
        · subst same
          rw [Function.update_self]
          simp only [slot, List.length_cons] at counted
          omega
        · have others := enough dag
          rwa [List.countP_cons_of_neg (by simpa using Ne.symm same), ← Function.update_of_ne same later sorted] at others

theorem map_reorderPriorityQueues (priority : DagID → Bool) (queued : List DagRun) :
    (reorderPriorityQueues priority queued).map (·.dagID) = queued.map (·.dagID) := by
  apply @map_refill _ fun dag => drainOrder (priority dag) (queued.filter (·.dagID == dag))
  · intro dag r member
    exact beq_iff_eq.mp (List.mem_filter.mp (mem_drainOrder.mp member)).2
  · intro dag
    rw [length_drainOrder, List.countP_eq_length_filter]

theorem drainOrder_perm (byPriority : Bool) (rows : List DagRun) : (drainOrder byPriority rows).Perm rows := by
  unfold drainOrder
  split
  · exact List.perm_insertionSort _ rows
  · exact List.Perm.refl rows

/-- Of each run there are as many as before: those of its DAG are among those of the DAG. -/
theorem reorderPriorityQueues_perm (priority : DagID → Bool) (queued : List DagRun) :
    (reorderPriorityQueues priority queued).Perm queued := by
  rw [List.perm_iff_count]
  intro r
  have mine (rows : List DagRun) : rows.count r = (rows.filter (·.dagID == r.dagID)).count r :=
    (List.count_filter (by simp)).symm
  rw [mine, filter_reorderPriorityQueues, (drainOrder_perm _ _).count_eq, ← mine]

/-- Where no DAG drains by priority, or the ones that do have a single run, the list comes back as it is. -/
theorem reorderPriorityQueues_unchanged (few : ∀ dag, priority dag = true → (queued.filter (·.dagID == dag)).length < 2) :
    reorderPriorityQueues priority queued = queued := by
  apply eq_of_slots (·.dagID) (map_reorderPriorityQueues priority queued)
  intro dag
  rw [filter_reorderPriorityQueues]
  unfold drainOrder
  split
  · rename_i urgent
    have short := few dag urgent
    cases among : queued.filter (·.dagID == dag) with
    | nil => rfl
    | cons r rest =>
      rw [among, List.length_cons] at short
      obtain rfl := List.eq_nil_of_length_eq_zero (show rest.length = 0 by omega)
      rfl
  · rfl

end Slots

/-- `reorderPriorityQueues` with its look-ups in the cache. -/
def drainQueue (queued : List DagRun) : Act (List DagRun) := do
  let priority ← priorityDAGs queued
  pure (reorderPriorityQueues priority queued)

/-- The entry of the cache is one whose runs drain by priority. -/
def drainsByPriority (cached : DagID → Option CachedDAG) (dag : DagID) : Bool :=
  (cached dag).any (·.dag.executionPolicy == .serialPriority)

/-- The second list is the first one, with the runs of each `serial_priority` DAG sorted stably over
the places of that DAG. -/
structure SortedInPlace (cached : DagID → Option CachedDAG) (queued drained : List DagRun) : Prop where
  perm : drained.Perm queued
  slots : ∀ i : Nat, (drained[i]?).map DagRun.dagID = (queued[i]?).map DagRun.dagID
  ordered : ∀ dag, drainsByPriority cached dag = true → (drained.filter (·.dagID == dag)).Pairwise fun a b =>
    b.priority < a.priority ∨ (a.priority = b.priority ∧ a.logicalDate ≤ b.logicalDate)
  ties : ∀ dag, drainsByPriority cached dag = true → ∀ (priority : Int) (date : Time),
    (drained.filter (·.dagID == dag)).filter (fun r => r.priority == priority && r.logicalDate == date) =
      (queued.filter (·.dagID == dag)).filter fun r => r.priority == priority && r.logicalDate == date
  others : ∀ dag, drainsByPriority cached dag = false →
    drained.filter (·.dagID == dag) = queued.filter (·.dagID == dag)

/-- Only the DAGs of the queue have to be looked up. -/
theorem reorderPriorityQueues_sorted {cached : DagID → Option CachedDAG} {queued : List DagRun} {priority : DagID → Bool}
    (looked : ∀ r ∈ queued, priority r.dagID = drainsByPriority cached r.dagID) :
    SortedInPlace cached queued (reorderPriorityQueues priority queued) := by
  have filtered (dag : DagID) : (reorderPriorityQueues priority queued).filter (·.dagID == dag) =
      drainOrder (drainsByPriority cached dag) (queued.filter (·.dagID == dag)) := by
    rw [filter_reorderPriorityQueues]
    cases among : queued.filter (·.dagID == dag) with
    | nil =>
      unfold drainOrder
      split <;> split <;> rfl
    | cons r rest =>
      have member : r ∈ queued.filter (·.dagID == dag) := by simp [among]
      obtain ⟨listed, own⟩ := List.mem_filter.mp member
      have same := looked r listed
      rw [beq_iff_eq.mp own] at same
      rw [same]
  refine ⟨reorderPriorityQueues_perm priority queued, fun i => ?_, fun dag urgent => ?_, fun dag urgent p date => ?_, fun dag plain => ?_⟩
  · have slots := congrArg (fun dags : List DagID => dags[i]?) (map_reorderPriorityQueues priority queued)
    simpa only [List.getElem?_map] using slots
  · rw [filtered, urgent]
    refine (List.pairwise_insertionSort (fun a b => drainsBefore a b = true) _).imp fun {a b} first => ?_
    exact drainsBefore_iff.mp first
  · rw [filtered, urgent]
    apply filter_insertionSort fun a b => drainsBefore a b = true
    intro a b first second
    simp only [Bool.and_eq_true, beq_iff_eq] at first second
    exact drainsBefore_iff.mpr (.inr ⟨first.1.trans second.1.symm, (first.2.trans second.2.symm).le⟩)
  · rw [filtered, plain]
    rfl

/-- The look-ups leave the world as it is, and find of each DAG what is cached. -/
theorem priorityDAGs_run (a : Answer) (w : World) (queued : List DagRun) :
    ∃ priority, (priorityDAGs queued).run (World.respond a) w = (.ok priority, w) ∧
      ∀ r ∈ queued, priority r.dagID = drainsByPriority w.cached r.dagID := by
  have looked (dags : List DagID) (known : DagID → Bool) :
      ∃ priority, (Prog.fold (fun known dag => do
        let cached ← cachedDAG dag
        pure (Function.update known dag (cached.any (·.dag.executionPolicy == .serialPriority)))) dags known :
          Act (DagID → Bool)).run (World.respond a) w = (.ok priority, w) ∧
        (∀ dag ∈ dags, priority dag = drainsByPriority w.cached dag) ∧ ∀ dag ∉ dags, priority dag = known dag := by
    induction dags generalizing known with
    | nil => exact ⟨known, rfl, nofun, fun _ _ => rfl⟩
    | cons dag dags ih =>
      obtain ⟨priority, ran, here, elsewhere⟩ := ih (Function.update known dag (drainsByPriority w.cached dag))
      refine ⟨priority, ran, fun other member => ?_, fun other fresh => ?_⟩
      · by_cases later : other ∈ dags
        · exact here other later
        · obtain rfl := (List.mem_cons.mp member).resolve_right later
          rw [elsewhere other later, Function.update_self]
      · obtain ⟨apart, later⟩ := not_or.mp (mt List.mem_cons.mpr fresh)
        rw [elsewhere other later, Function.update_of_ne apart]
  obtain ⟨priority, ran, here, _⟩ := looked (queued.map (·.dagID)).dedup fun _ => false
  exact ⟨priority, ran, fun r member => here r.dagID (List.mem_dedup.mpr (List.mem_map_of_mem member))⟩

/-- Whatever is cached, the queue comes back sorted in place. -/
theorem queue_sorted_in_place (a : Answer) (w : World) (queued : List DagRun) :
    ∃ drained, (drainQueue queued).run (World.respond a) w = (.ok drained, w) ∧ SortedInPlace w.cached queued drained := by
  obtain ⟨priority, ran, looked⟩ := priorityDAGs_run a w queued
  refine ⟨reorderPriorityQueues priority queued, ?_, reorderPriorityQueues_sorted looked⟩
  simp only [drainQueue, Prog.bind_eq, Prog.run_bind, ran]
  rfl

end Cronova.Scheduler
