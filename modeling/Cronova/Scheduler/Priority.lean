import Cronova.Scheduler.Capacity
import Cronova.Scheduler.Promises
import Mathlib.Data.List.Sort
import Mathlib.Data.Prod.Lex

/-! Who is admitted first: the order of an admission pass, and that it passes nobody over. -/

set_option autoImplicit false

namespace Cronova.Scheduler

open Model Store Process
open Calendar (Time)

/-! ### The order -/

section Order

variable {a b : ReadyTask} {ready ready' : List ReadyTask}

/-- The run and the task, by which the tick tells its candidates apart. -/
def ReadyTask.id (rt : ReadyTask) : String × TaskID := (rt.run.runID.text, rt.ti.taskID)

/-- The five keys of the admission order. -/
def ReadyTask.rank (rt : ReadyTask) : Intᵒᵈ ×ₗ Intᵒᵈ ×ₗ Time ×ₗ String ×ₗ TaskID :=
  toLex (.toDual rt.run.priority, toLex (.toDual rt.ti.priority, toLex (rt.run.logicalDate, toLex rt.id)))

theorem before_iff : a.before b = true ↔ a.rank ≤ b.rank := by
  unfold ReadyTask.before ReadyTask.rank ReadyTask.id
  simp only [Prod.Lex.toLex_le_toLex, OrderDual.toDual_lt_toDual, OrderDual.toDual_inj]
  by_cases urgency : a.run.priority = b.run.priority
  · by_cases weight : a.ti.priority = b.ti.priority
    · by_cases age : a.run.logicalDate = b.run.logicalDate
      · by_cases run : a.run.runID.text = b.run.runID.text
        · simp [urgency, weight, age, run]
        · simp [urgency, weight, age, run]
      · simp [urgency, weight, age]
    · simp [urgency, weight]
  · simp [urgency]

theorem rank_injective (same : a.rank = b.rank) : a.id = b.id := by
  unfold ReadyTask.rank at same
  simp only [toLex_inj, Prod.mk.injEq] at same
  exact same.2.2.2

instance : Std.Total fun a b : ReadyTask => a.before b = true :=
  ⟨fun a b => by simpa only [before_iff] using le_total a.rank b.rank⟩

instance : IsTrans ReadyTask fun a b => a.before b = true :=
  ⟨fun _ _ _ first second => before_iff.mpr ((before_iff.mp first).trans (before_iff.mp second))⟩

/-- Two candidates that go before each other are one. -/
theorem before_antisymm (distinct : (ready.map ReadyTask.id).Nodup) (here : a ∈ ready) (there : b ∈ ready)
    (first : a.before b = true) (second : b.before a = true) : a = b := by
  have same : a.rank = b.rank := le_antisymm (before_iff.mp first) (before_iff.mp second)
  exact List.inj_on_of_nodup_map distinct here there (rank_injective same)

/-- The candidates in the order in which they are admitted. -/
abbrev admissionOrder (ready : List ReadyTask) : List ReadyTask := ready.insertionSort fun a b => a.before b

theorem admissionOrder_pairwise (ready : List ReadyTask) : (admissionOrder ready).Pairwise fun a b => a.before b = true :=
  List.pairwise_insertionSort _ ready

theorem mem_admissionOrder : a ∈ admissionOrder ready ↔ a ∈ ready := List.mem_insertionSort _

/-- The order does not depend on how the candidates were listed. -/
theorem admissionOrder_perm (distinct : (ready.map ReadyTask.id).Nodup) (perm : ready.Perm ready') :
    admissionOrder ready = admissionOrder ready' := by
  have sorted : (admissionOrder ready).Perm (admissionOrder ready') :=
    (List.perm_insertionSort _ ready).trans (perm.trans (List.perm_insertionSort _ ready').symm)
  apply List.Perm.eq_of_pairwise _ (admissionOrder_pairwise ready) (admissionOrder_pairwise ready') sorted
  intro a b here there
  exact before_antisymm distinct (mem_admissionOrder.mp here) (perm.mem_iff.mpr (mem_admissionOrder.mp there))

theorem admitReady_perm (env : Env) (distinct : (ready.map ReadyTask.id).Nodup) (perm : ready.Perm ready') :
    admitReady env ready = admitReady env ready' := by
  have empty : ready.isEmpty = ready'.isEmpty := by
    rw [Bool.eq_iff_iff, List.isEmpty_iff, List.isEmpty_iff]
    exact ⟨fun none => (none ▸ perm).nil_eq.symm, fun none => (none ▸ perm).eq_nil⟩
  unfold admitReady
  rw [empty]
  have order := admissionOrder_perm distinct perm
  unfold admissionOrder at order
  rw [order]

/-- One candidate goes first, and the others up to the next one after it. -/
theorem admissionOrder_split {o d : ReadyTask} (distinct : (ready.map ReadyTask.id).Nodup) (waits : o ∈ ready) (other : d ∈ ready)
    (apart : o ≠ d) (first : o.before d = true) :
    ∃ earlier later, admissionOrder ready = earlier ++ o :: later ∧ d ∉ earlier := by
  obtain ⟨earlier, later, split⟩ := List.append_of_mem (mem_admissionOrder.mpr waits)
  refine ⟨earlier, later, split, fun before => apart ?_⟩
  have sorted := admissionOrder_pairwise ready
  rw [split] at sorted
  have second : d.before o = true := (List.pairwise_append.mp sorted).2.2 d before o (.head _)
  exact before_antisymm distinct waits other first second

end Order

/-! ### The budgets of a pass -/

section Spending

variable {b b' : Budgets} {rt o d : ReadyTask}

/-- A budget of the candidate is used up. -/
def Spent (b : Budgets) (rt : ReadyTask) : Prop :=
  b.global ≤ 0 ∨ (∃ rem ≤ 0, b.pools rt.ti.pool = some rem) ∨ (0 < rt.dagMaxTasks ∧ ∃ rem ≤ 0, b.dags rt.run.dagID = some rem)

/-- A budget that is known only goes down. -/
structure Budgets.Shrinks (b b' : Budgets) : Prop where
  global : b'.global ≤ b.global
  pools : ∀ pool rem, b.pools pool = some rem → ∃ rem' ≤ rem, b'.pools pool = some rem'
  dags : ∀ dag rem, b.dags dag = some rem → ∃ rem' ≤ rem, b'.dags dag = some rem'

theorem Budgets.Shrinks.refl (b : Budgets) : b.Shrinks b where
  global := Int.le_refl _
  pools _ rem known := ⟨rem, Int.le_refl _, known⟩
  dags _ rem known := ⟨rem, Int.le_refl _, known⟩

theorem Budgets.Shrinks.trans {mid : Budgets} (first : b.Shrinks mid) (second : mid.Shrinks b') : b.Shrinks b' where
  global := second.global.trans first.global
  pools pool rem known := by
    obtain ⟨rem', less, known'⟩ := first.pools pool rem known
    obtain ⟨rem'', less', known''⟩ := second.pools pool rem' known'
    exact ⟨rem'', less'.trans less, known''⟩
  dags dag rem known := by
    obtain ⟨rem', less, known'⟩ := first.dags dag rem known
    obtain ⟨rem'', less', known''⟩ := second.dags dag rem' known'
    exact ⟨rem'', less'.trans less, known''⟩

theorem Spent.shrinks (spent : Spent b rt) (shrinks : b.Shrinks b') : Spent b' rt := by
  rcases spent with none | ⟨rem, none, known⟩ | ⟨limited, rem, none, known⟩
  · exact .inl (shrinks.global.trans none)
  · obtain ⟨rem', less, known'⟩ := shrinks.pools _ rem known
    exact .inr (.inl ⟨rem', less.trans none, known'⟩)
  · obtain ⟨rem', less, known'⟩ := shrinks.dags _ rem known
    exact .inr (.inr ⟨limited, rem', less.trans none, known'⟩)

/-- The two candidates draw on the same budgets: one pool, and one DAG with one limit or no limit. -/
structure SharesBudgets (o d : ReadyTask) : Prop where
  pool : o.ti.pool = d.ti.pool
  dag : (o.run.dagID = d.run.dagID ∧ o.dagMaxTasks = d.dagMaxTasks) ∨ (o.dagMaxTasks ≤ 0 ∧ d.dagMaxTasks ≤ 0)

theorem Spent.shared (spent : Spent b o) (shares : SharesBudgets o d) : Spent b d := by
  rcases spent with none | pool | ⟨limited, dag⟩
  · exact .inl none
  · exact .inr (.inl (shares.pool ▸ pool))
  · rcases shares.dag with ⟨same, limit⟩ | ⟨unlimited, _⟩
    · exact .inr (.inr ⟨limit ▸ limited, same ▸ dag⟩)
    · omega

theorem Budgets.Shrinks.noted {pool : String} {rem : Int} (known : ∀ old, b.pools pool = some old → rem ≤ old) :
    b.Shrinks { b with pools := Function.update b.pools pool (some rem) } where
  global := Int.le_refl _
  pools other old before := by
    dsimp only
    by_cases own : other = pool
    · subst own
      rw [Function.update_self]
      exact ⟨rem, known old before, rfl⟩
    · rw [Function.update_of_ne own]
      exact ⟨old, Int.le_refl _, before⟩
  dags _ rem known := ⟨rem, Int.le_refl _, known⟩

/-- A dispatch is charged to every budget that it draws on. -/
theorem Budgets.Shrinks.charged (b : Budgets) (rt : ReadyTask) {rem : Int} (known : ∀ old, b.pools rt.ti.pool = some old → rem ≤ old) :
    b.Shrinks { b with
      global := b.global - 1
      pools := Function.update b.pools rt.ti.pool (some (rem - 1))
      dags := if rt.dagMaxTasks > 0 then Function.update b.dags rt.run.dagID ((b.dags rt.run.dagID).map (· - 1)) else b.dags } where
  global := by
    dsimp only
    omega
  pools := (Budgets.Shrinks.noted fun old before => by
    have less := known old before
    omega).pools
  dags dag old before := by
    dsimp only
    split
    · by_cases own : dag = rt.run.dagID
      · subst own
        rw [Function.update_self, before]
        exact ⟨old - 1, by omega, rfl⟩
      · rw [Function.update_of_ne own]
        exact ⟨old, Int.le_refl _, before⟩
    · exact ⟨old, Int.le_refl _, before⟩

end Spending

/-! ### What a pass dispatches -/

section Dispatch

/-- The attempt that the statement starts, with its run. -/
def Op.dispatches : Op → List (DagRun × TaskInstance)
  | .go (.runTask run _ ti) => [(run, ti)]
  | _ => []

def dispatchesAfter (v : List (DagRun × TaskInstance)) (o : Op) (_ : o.Reply) : List (DagRun × TaskInstance) := v ++ o.dispatches

/-- An attempt of the candidate is among those started. -/
def Among (v : List (DagRun × TaskInstance)) (rt : ReadyTask) : Prop := ∃ ti, (rt.run, ti) ∈ v ∧ ti.key = rt.ti.key

/-- The log starts an attempt of the candidate. -/
def Dispatches (log : List (Issued statements)) (rt : ReadyTask) : Prop := Among (Prog.view dispatchesAfter [] log) rt

/-- The replies that concern a candidate whose worker group is up, whose pool can be counted, which
is found unchanged and whose dispatch does not fail. A row comes back under the key it was asked by. -/
def Favours (rt : ReadyTask) : (o : Op) → o.Reply → Prop
  | .groupAvailable group, up => group = rt.t.workerGroup → up = true
  | .countRunningInPool pool, counted => pool = rt.ti.pool → counted.isOk = true
  | .getTaskInstance key, found => (∀ ti, found = .ok ti → ti.key = key) ∧
      (key = rt.ti.key → ∃ ti, found = .ok ti ∧ ti.state = .scheduled)
  | .updateTaskInstance ti, written => ti.key = rt.ti.key → written.isOk = true
  | _, _ => True

/-- The contract of a pass that favours the candidate. -/
abbrev favouring (o : ReadyTask) : Contract statements (List (DagRun × TaskInstance)) :=
  Prog.tracking (I := statements) dispatchesAfter (Favours o) fun _ _ => True

variable {o d rt : ReadyTask} {b : Budgets} {v : List (DagRun × TaskInstance)}

/-- The rule for a statement that starts no attempt. -/
theorem favours_call {A : Type} {s : Op} {k : s.Reply → Act A} {post : Except Failure A → List (DagRun × TaskInstance) → Prop}
    (none : s.dispatches = []) (next : ∀ reply, Favours o s reply → (k reply).Safe (favouring o) post v) :
    (Prog.call (I := statements) s k).Safe (favouring o) post v := by
  refine Prog.Safe.tracked trivial fun reply favoured => ?_
  have same : dispatchesAfter v s reply = v := by
    change v ++ s.dispatches = v
    rw [none, List.append_nil]
  rw [same]
  exact next reply favoured

theorem groupUp_favours (group : String) (up : b.groups o.t.workerGroup ≠ some false) :
    (groupUp b group).Safe (favouring o) (Prog.returns fun r u => u = v ∧ b.Shrinks r.1 ∧ r.1.global = b.global ∧
      r.1.pools = b.pools ∧ r.1.dags = b.dags ∧ r.1.groups o.t.workerGroup ≠ some false ∧
      (group = o.t.workerGroup → r.2 = true)) v := by
  unfold groupUp
  split
  · exact ⟨rfl, .refl b, rfl, rfl, rfl, up, fun _ => rfl⟩
  · split
    · rename_i known
      refine ⟨rfl, .refl b, rfl, rfl, rfl, up, fun own => ?_⟩
      subst own
      simpa [known] using up
    · have unchanged := Budgets.Shrinks.refl b
      refine favours_call rfl fun reply favoured =>
        ⟨rfl, ⟨unchanged.global, unchanged.pools, unchanged.dags⟩, rfl, rfl, rfl, ?_, favoured⟩
      dsimp only
      by_cases own : o.t.workerGroup = group
      · subst own
        rw [Function.update_self, favoured rfl]
        exact fun none => nomatch none
      · rw [Function.update_of_ne own]
        exact up

theorem dagBudget_favours (b : Budgets) (rt : ReadyTask) :
    (dagBudget b rt).Safe (favouring o) (Prog.returns fun r u => u = v ∧ b.Shrinks r.1 ∧ r.1.global = b.global ∧
      r.1.pools = b.pools ∧ r.1.groups = b.groups ∧
      (r.2 = false → 0 < rt.dagMaxTasks ∧ ∃ rem ≤ 0, r.1.dags rt.run.dagID = some rem) ∧
      (r.2 = true → 0 < rt.dagMaxTasks → ∀ rem, b.dags rt.run.dagID = some rem → 0 < rem)) v := by
  unfold dagBudget
  split
  · exact ⟨rfl, .refl b, rfl, rfl, rfl, nofun, fun _ _ => by omega⟩
  · rename_i limited
    split
    · rename_i rem known
      refine ⟨rfl, .refl b, rfl, rfl, rfl, fun none => ⟨by omega, rem, by simpa using none, known⟩, fun left _ rem' same => ?_⟩
      rw [known] at same
      cases same
      simpa using left
    · rename_i unknown
      refine favours_call rfl fun counted _ => ?_
      have noted (rem : Int) : b.Shrinks { b with dags := Function.update b.dags rt.run.dagID (some rem) } := by
        refine ⟨Int.le_refl _, fun _ rem known => ⟨rem, Int.le_refl _, known⟩, fun dag old known => ⟨old, Int.le_refl _, ?_⟩⟩
        have other : dag ≠ rt.run.dagID := by
          rintro rfl
          rw [unknown] at known
          cases known
        exact (Function.update_of_ne other _ _).trans known
      have first : true = true → 0 < rt.dagMaxTasks → ∀ rem, b.dags rt.run.dagID = some rem → 0 < rem := by
        intro _ _ rem known
        rw [unknown] at known
        cases known
      have ended (rem : Int) : (pure ({ b with dags := Function.update b.dags rt.run.dagID (some rem) }, decide (rem > 0)) :
          Act (Budgets × Bool)).Safe (favouring o) (Prog.returns fun r u => u = v ∧ b.Shrinks r.1 ∧ r.1.global = b.global ∧
            r.1.pools = b.pools ∧ r.1.groups = b.groups ∧
            (r.2 = false → 0 < rt.dagMaxTasks ∧ ∃ rem ≤ 0, r.1.dags rt.run.dagID = some rem) ∧
            (r.2 = true → 0 < rt.dagMaxTasks → ∀ rem, b.dags rt.run.dagID = some rem → 0 < rem)) v :=
        ⟨rfl, noted rem, rfl, rfl, rfl, fun none => ⟨by omega, rem, by simpa using none, Function.update_self _ _ _⟩,
          fun _ => first rfl⟩
      cases counted with
      | ok used => exact ended _
      | error e => exact ended _

theorem poolSlots_favours (pool : String) : (poolSlots pool).Safe (favouring o) (Prog.returns fun _ u => u = v) v := by
  refine favours_call rfl fun found _ => ?_
  cases found with
  | ok p => rfl
  | error e => rfl

theorem poolBudget_favours (b : Budgets) (pool : String) :
    (poolBudget b pool).Safe (favouring o) (Prog.returns fun r u => u = v ∧ (r = none → pool ≠ o.ti.pool) ∧
      ∀ known, b.pools pool = some known → r = some known) v := by
  unfold poolBudget
  split
  · rename_i rem counted
    refine ⟨rfl, nofun, fun known same => ?_⟩
    rw [counted] at same
    exact same
  · rename_i unknown
    have first : ∀ r : Option Int, ∀ known, b.pools pool = some known → r = some known := by
      intro r known same
      rw [unknown] at same
      cases same
    refine favours_call rfl fun counted favoured => ?_
    cases counted with
    | error e =>
      refine ⟨rfl, fun _ own => ?_, first none⟩
      have counts := favoured own
      cases counts
    | ok used =>
      refine Prog.Safe.andThen (p := poolSlots pool) _ (poolSlots_favours pool) fun slots u same => ?_
      exact ⟨same, nofun, first _⟩

/-- The favoured candidate is dispatched when its turn comes. -/
theorem admitTask_favours (rt : ReadyTask) : (admitTask rt).Safe (favouring o) (Prog.returns fun launched u =>
    (launched = false ∧ u = v ∧ rt.ti.key ≠ o.ti.key) ∨
    (launched = true ∧ ∃ ti, ti.key = rt.ti.key ∧ u = v ++ [(rt.run, ti)])) v := by
  refine favours_call rfl fun found favoured => ?_
  obtain ⟨named, waits⟩ := favoured
  cases found with
  | error e =>
    refine .inl ⟨rfl, rfl, fun own => ?_⟩
    obtain ⟨ti, impossible, _⟩ := waits own
    cases impossible
  | ok cur =>
    have own : cur.key = rt.ti.key := named cur rfl
    show (ite (cur.state ≠ .scheduled) _ _ : Act Bool).Safe (favouring o) _ v
    split
    · rename_i changed
      refine .inl ⟨rfl, rfl, fun same => ?_⟩
      obtain ⟨ti, found, unchanged⟩ := waits same
      cases found
      exact changed unchanged
    · refine favours_call rfl fun written favoured => ?_
      cases written with
      | error e =>
        refine .inl ⟨rfl, rfl, fun same => ?_⟩
        have taken : (Except.error e : Except StoreError Unit).isOk = true := favoured (own.trans same)
        cases taken
      | ok _ =>
        refine Prog.Safe.tracked trivial fun _ _ => .inr ⟨rfl, dispatched rt.run rt.t cur, own, rfl⟩

/-- One round of the pass: the candidate is left out, which for the favoured one takes a spent
budget, or no budget of it is spent and it is dispatched. -/
inductive AdmissionTurn (o rt : ReadyTask) (b : Budgets) (v : List (DagRun × TaskInstance)) :
    Budgets → List (DagRun × TaskInstance) → Prop where
  | leftOut {b' : Budgets} (shrinks : b.Shrinks b') (spent : rt = o → Spent b' rt) : AdmissionTurn o rt b v b' v
  | dispatched {b' : Budgets} {ti : TaskInstance} (shrinks : b.Shrinks b') (unspent : ¬ Spent b rt) (own : ti.key = rt.ti.key) :
      AdmissionTurn o rt b v b' (v ++ [(rt.run, ti)])

theorem admitRound_turns (rt : ReadyTask) (up : b.groups o.t.workerGroup ≠ some false) :
    (admitRound b rt).Safe (favouring o) (Prog.returns fun b' u =>
      b'.groups o.t.workerGroup ≠ some false ∧ AdmissionTurn o rt b v b' u) v := by
  unfold admitRound
  split
  · rename_i none
    exact ⟨up, .leftOut (.refl b) fun _ => .inl none⟩
  · rename_i left
    refine Prog.Safe.andThen _ (groupUp_favours rt.t.workerGroup up) fun grouped u available => ?_
    obtain ⟨b₁, isUp⟩ := grouped
    obtain ⟨rfl, shrinks₁, global₁, pools₁, dags₁, up₁, available⟩ := available
    dsimp only at shrinks₁ global₁ pools₁ dags₁ up₁ available ⊢
    split
    · rename_i down
      refine ⟨up₁, .leftOut shrinks₁ fun own => ?_⟩
      rw [available (by rw [own])] at down
      cases down
    · refine Prog.Safe.andThen _ (dagBudget_favours b₁ rt) fun limited u counted => ?_
      obtain ⟨b₂, within⟩ := limited
      obtain ⟨rfl, shrinks₂, global₂, pools₂, groups₂, exceeded, under⟩ := counted
      dsimp only at shrinks₂ global₂ pools₂ groups₂ exceeded under ⊢
      have up₂ : b₂.groups o.t.workerGroup ≠ some false := groups₂ ▸ up₁
      split
      · rename_i full
        exact ⟨up₂, .leftOut (shrinks₁.trans shrinks₂) fun _ => .inr (.inr (exceeded (by simpa using full)))⟩
      · rename_i inside
        refine Prog.Safe.andThen _ (poolBudget_favours b₂ rt.ti.pool) fun found u slots => ?_
        obtain ⟨rfl, uncounted, cached⟩ := slots
        cases found with
        | none => exact ⟨up₂, .leftOut (shrinks₁.trans shrinks₂) fun own => absurd (by rw [own]) (uncounted rfl)⟩
        | some rem =>
          have known : ∀ old, b₂.pools rt.ti.pool = some old → rem ≤ old := by
            intro old same
            cases cached old same
            exact Int.le_refl _
          dsimp only
          split
          · rename_i none
            refine ⟨up₂, .leftOut ((shrinks₁.trans shrinks₂).trans (.noted known)) fun _ => ?_⟩
            exact .inr (.inl ⟨rem, none, Function.update_self _ _ _⟩)
          · rename_i positive
            have unspent : ¬ Spent b rt := by
              rintro (none | ⟨old, none, counted⟩ | ⟨limited, old, none, counted⟩)
              · exact left none
              · rw [← pools₁, ← pools₂] at counted
                cases cached old counted
                exact positive none
              · rw [← dags₁] at counted
                have some := under (by simpa using inside) limited old counted
                omega
            refine Prog.Safe.andThen _ (admitTask_favours rt) fun launched u ended => ?_
            rcases ended with ⟨rfl, rfl, other⟩ | ⟨rfl, ti, own, rfl⟩
            · exact ⟨up₂, .leftOut (shrinks₁.trans shrinks₂) fun same => absurd (by rw [same]) other⟩
            · exact ⟨up₂, .dispatched ((shrinks₁.trans shrinks₂).trans (.charged b₂ rt known)) unspent own⟩

/-- What the pass keeps, for `o` that goes before `d`: `o` waits for its turn, is dispatched, or
leaves a budget spent that `d` needs. -/
inductive NotOvertaken (o d : ReadyTask) (rest : List ReadyTask) (b : Budgets) (v : List (DagRun × TaskInstance)) : Prop where
  | waits (earlier later : List ReadyTask) (split : rest = earlier ++ o :: later) (after : d ∉ earlier) (behind : ¬ Among v d)
  | dispatched (among : Among v o)
  | barred (spent : Spent b d) (behind : ¬ Among v d)

/-- The attempt of one candidate is no attempt of another. -/
theorem among_append {ready : List ReadyTask} (distinct : (ready.map ReadyTask.id).Nodup) (here : rt ∈ ready) (there : d ∈ ready)
    {ti : TaskInstance} (own : ti.key = rt.ti.key) (among : Among (v ++ [(rt.run, ti)]) d) : Among v d ∨ rt = d := by
  obtain ⟨ti', member, own'⟩ := among
  rcases List.mem_append.mp member with before | last
  · exact .inl ⟨ti', before, own'⟩
  · right
    obtain ⟨run, rfl⟩ := Prod.mk.inj (List.mem_singleton.mp last)
    have task : rt.ti.taskID = d.ti.taskID := congrArg InstanceKey.task (own.symm.trans own')
    apply List.inj_on_of_nodup_map distinct here there
    rw [ReadyTask.id, ReadyTask.id, run, task]

theorem NotOvertaken.turn {ready rest : List ReadyTask} {b' : Budgets} {u : List (DagRun × TaskInstance)}
    (kept : NotOvertaken o d (rt :: rest) b v) (distinct : (ready.map ReadyTask.id).Nodup) (here : rt ∈ ready) (there : d ∈ ready)
    (apart : o ≠ d) (shares : SharesBudgets o d) (turn : AdmissionTurn o rt b v b' u) : NotOvertaken o d rest b' u := by
  cases kept with
  | dispatched among =>
    cases turn with
    | leftOut => exact .dispatched among
    | dispatched =>
      obtain ⟨ti, member, own⟩ := among
      exact .dispatched ⟨ti, List.mem_append_left _ member, own⟩
  | barred spent behind =>
    cases turn with
    | leftOut shrinks => exact .barred (spent.shrinks shrinks) behind
    | dispatched shrinks unspent own =>
      refine .barred (spent.shrinks shrinks) fun among => ?_
      rcases among_append distinct here there own among with before | rfl
      · exact behind before
      · exact unspent spent
  | waits earlier later split after behind =>
    cases earlier with
    | nil =>
      -- the turn of `o`
      obtain ⟨rfl, rfl⟩ := List.cons.inj split
      cases turn with
      | leftOut shrinks spent => exact .barred ((spent rfl).shared shares) behind
      | dispatched _ _ own => exact .dispatched ⟨_, List.mem_append_right _ (.head _), own⟩
    | cons first earlier =>
      obtain ⟨rfl, rfl⟩ := List.cons.inj split
      have other : rt ≠ d := fun same => after (same ▸ .head _)
      have onward : d ∉ earlier := fun member => after (.tail _ member)
      cases turn with
      | leftOut => exact .waits earlier later rfl onward behind
      | dispatched _ _ own =>
        refine .waits earlier later rfl onward fun among => ?_
        rcases among_append distinct here there own among with before | same
        · exact behind before
        · exact other same

theorem admitReady_favours (env : Env) {ready : List ReadyTask} (distinct : (ready.map ReadyTask.id).Nodup) (waits : o ∈ ready)
    (there : d ∈ ready) (first : o.before d = true) (apart : o ≠ d) (shares : SharesBudgets o d) :
    (admitReady env ready).Safe (favouring o) (Prog.returns fun _ u => Among u d → Among u o) [] := by
  obtain ⟨earlier, later, split, after⟩ := admissionOrder_split distinct waits there apart first
  have nobody : ¬ Among [] d := by
    rintro ⟨ti, member, _⟩
    cases member
  unfold admitReady
  split
  · exact fun among => absurd among nobody
  · have unlocked : (locked .admission do
        let active ← countActiveTaskInstances
        let _ ← Prog.fold admitRound (admissionOrder ready) { global := env.maxConcurrentTasks - active }
        pure () : Act Unit).Safe (favouring o) (fun _ u => Among u d → Among u o) [] := by
      refine favours_call rfl fun _ _ => ?_
      show Prog.Safe (favouring o) (Prog.bind (Prog.attempt _) _) _ []
      refine Prog.Safe.andThen (fun _ u => Among u d → Among u o) (Prog.Safe.attempt ?_) fun result u ended => ?_
      · refine favours_call rfl fun counted _ => ?_
        cases counted with
        | error e => exact fun among => absurd among nobody
        | ok active =>
          show Prog.Safe (favouring o) (Prog.bind (Prog.fold admitRound _ _) _) _ []
          refine Prog.Safe.andThen (fun _ u => Among u d → Among u o) ?_ fun _ _ ended => ended
          apply Prog.Safe.fold fun rest b u => (∀ rt ∈ rest, rt ∈ ready) ∧ b.groups o.t.workerGroup ≠ some false ∧
            NotOvertaken o d rest b u
          · exact ⟨fun rt member => mem_admissionOrder.mp member, nofun, .waits earlier later split after nobody⟩
          · intro rt rest b u kept
            obtain ⟨among, up, kept⟩ := kept
            refine (admitRound_turns rt up).mono fun result x ended => ?_
            cases result with
            | error e => exact ended.elim
            | ok b' =>
              obtain ⟨up', turn⟩ := ended
              exact ⟨fun rt member => among rt (.tail _ member), up', kept.turn distinct (among rt (.head _)) there apart shares turn⟩
          · intro b u kept among
            obtain ⟨_, _, kept⟩ := kept
            cases kept with
            | waits earlier later split _ _ => simp at split
            | dispatched among => exact among
            | barred _ behind => exact absurd among behind
      · refine favours_call rfl fun _ _ => ?_
        cases result with
        | ok _ => exact ended
        | error e => exact ended
    refine Prog.Safe.andThen (fun _ u => Among u d → Among u o) (Prog.Safe.attempt ?_) fun _ _ ended => ended
    exact unlocked.mono fun _ _ ended => ended

/-- Admission does not depend on how the candidates are listed, and passes nobody over: of two
candidates that share their budgets, the later in the order is not dispatched unless the earlier
one is, if that one is found unchanged, its group is up and its dispatch does not fail. -/
theorem admission_canonical (env : Env) {ready ready' : List ReadyTask} (distinct : (ready.map ReadyTask.id).Nodup)
    (perm : ready.Perm ready') :
    admitReady env ready = admitReady env ready' ∧
    ∀ o ∈ ready, ∀ d ∈ ready, o ≠ d → o.before d = true → SharesBudgets o d →
      ∀ log, Prog.After (admitReady env ready) log (.done ()) → (∀ issued ∈ log, Favours o issued.1 issued.2) →
        Dispatches log d → Dispatches log o := by
  refine ⟨admitReady_perm env distinct perm, fun o here d there apart first shares log after favours => ?_⟩
  exact after.safe favours (admitReady_favours env distinct here there first apart shares)

/-! ### Two candidates -/

/-- `extract` of an urgent run. -/
def urgentLoad : ReadyTask :=
  ⟨{ loadRun with runID := .manual "load" 1, logicalDate := 1, priority := 1 }, extractTask, { waitsIn "a" with runID := .manual "load" 1 }, 0⟩

/-- `extract` of another run of the DAG. -/
def usualLoad : ReadyTask := ⟨loadRun, extractTask, waitsIn "a", 0⟩

/-- The surroundings of a pass in which every candidate still waits and the executors are idle. -/
def allWaiting : Handler statements Unit := fun o _ =>
  (match o with
    | .groupAvailable _ => true
    | .getTaskInstance key => .ok { runID := key.run, taskID := key.task, pool := "a" }
    | .countActiveTaskInstances => .ok 0
    | .countRunningInPool _ => .ok 0
    | .updateTaskInstance _ => .ok ()
    | o => o.idle, ())

def bothLog : List (Issued statements) :=
  ((admitReady hourlyEnv [usualLoad, urgentLoad]).run (Prog.recorded allWaiting) ((), [])).2.2

theorem bothLog_favours : ∀ issued ∈ bothLog, Favours urgentLoad issued.1 issued.2 := by
  intro issued member
  rcases Prog.recorded_replies allWaiting () member with before | ⟨_, given⟩
  · cases before
  · obtain ⟨o, reply⟩ := issued
    dsimp only at given
    subst given
    cases o with
    | groupAvailable group => exact fun _ => rfl
    | countRunningInPool pool => exact fun _ => rfl
    | getTaskInstance key => exact ⟨fun ti same => by cases same; rfl, fun _ => ⟨_, rfl, rfl⟩⟩
    | updateTaskInstance ti => exact fun _ => rfl
    | _ => trivial

theorem urgent_goes_first : admitReady hourlyEnv [usualLoad, urgentLoad] = admitReady hourlyEnv [urgentLoad, usualLoad] ∧
    Dispatches bothLog urgentLoad := by
  have canonical := @admission_canonical hourlyEnv [usualLoad, urgentLoad] [urgentLoad, usualLoad] (by decide)
    (.swap urgentLoad usualLoad [])
  have after : Prog.After (admitReady hourlyEnv [usualLoad, urgentLoad]) bothLog (.done ()) :=
    Prog.After.recorded allWaiting .start ()
  have usual : Dispatches bothLog usualLoad := ⟨dispatched loadRun extractTask (waitsIn "a"), .tail _ (.head _), rfl⟩
  have apart : urgentLoad ≠ usualLoad := fun same => absurd (congrArg (·.run.priority) same) (by decide)
  exact ⟨canonical.1, canonical.2 urgentLoad (by simp) usualLoad (by simp) apart (by decide) ⟨rfl, .inl ⟨rfl, rfl⟩⟩
    bothLog after bothLog_favours usual⟩

end Dispatch

end Cronova.Scheduler
