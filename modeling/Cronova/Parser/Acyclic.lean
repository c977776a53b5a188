import Cronova.Parser.Dependencies
import Mathlib.Data.Finset.Card
import Mathlib.Data.List.Chain
import Mathlib.Logic.Relation

/-! `detectCycle` decides whether the dependencies have a cycle.

A search runs out of no bound: every nested call blackens or grays a white task, so the white tasks
measure it. Its gray tasks are the path it came by, and the error is a walk that comes back to it.
-/

set_option autoImplicit false

namespace Cronova.Parser

open Model

/-! ### Walks -/

section Walks

variable {A : Type} {R : A → A → Prop}

theorem transGen_of_isChain {a b : A} {between : List A} (walk : List.IsChain R (a :: between ++ [b])) :
    Relation.TransGen R a b := by
  induction between generalizing a with
  | nil => exact .single (by simpa using walk)
  | cons c between ih =>
    simp only [List.cons_append, List.isChain_cons_cons] at walk
    exact .head walk.1 (ih walk.2)

/-- A walk that comes back to one of its places goes round from there. -/
theorem transGen_of_return {path : List A} {again : A} (walk : List.IsChain R (path ++ [again])) (visited : again ∈ path) :
    Relation.TransGen R again again := by
  obtain ⟨before, between, rfl⟩ := List.append_of_mem visited
  rw [List.append_assoc] at walk
  exact transGen_of_isChain walk.right_of_append

theorem not_transGen_self_of_acc {a : A} (acc : Acc R a) : ¬ Relation.TransGen R a a := by
  have below : Acc (Relation.TransGen R) a := acc.transGen
  induction below with
  | intro a _ ih => exact fun round => ih a round acc round

end Walks

/-! ### The search -/

section Search

variable {adj : TaskID → List TaskID}

/-- What the search reports: a path of dependencies, and a dependency of its end that lies on it. -/
def Reported (adj : TaskID → List TaskID) (error : DependencyError) : Prop :=
  ∃ path again, error = .cycle path again ∧ List.IsChain (fun n m => m ∈ adj n) (path ++ [again]) ∧ again ∈ path

/-- The listed tasks that are yet to be visited. -/
def whites (ids : Finset TaskID) (color : Coloring) : Finset TaskID := ids.filter (color · = .white)

/-- No task becomes white again. -/
def Kept (before after : Coloring) : Prop := ∀ n, after n = .white → before n = .white

theorem whites_mono {ids : Finset TaskID} {before after : Coloring} (kept : Kept before after) :
    (whites ids after).card ≤ (whites ids before).card := by
  apply Finset.card_le_card
  intro n white
  simp only [whites, Finset.mem_filter] at white ⊢
  exact ⟨white.1, kept n white.2⟩

theorem whites_gray {ids : Finset TaskID} {color : Coloring} {n : TaskID} (listed : n ∈ ids) (white : color n = .white) :
    (whites ids (Function.update color n .gray)).card < (whites ids color).card := by
  apply Finset.card_lt_card
  have dropped : whites ids (Function.update color n .gray) = (whites ids color).erase n := by
    ext m
    by_cases same : m = n
    · simp [whites, same]
    · simp [whites, same]
  rw [dropped]
  exact Finset.erase_ssubset (by simp [whites, listed, white])

/-- What a nested search is called with: a white listed task at the end of the path, and gray tasks
on the path only. -/
structure Enters (adj : TaskID → List TaskID) (ids : Finset TaskID) (path : List TaskID) (n : TaskID) (color : Coloring) : Prop where
  listed : n ∈ ids
  white : color n = .white
  walk : List.IsChain (fun n m => m ∈ adj n) (path ++ [n])
  gray : ∀ m, color m = .gray → m ∈ path

/-- What a search leaves: no task is white or gray that was not, or an error with a cycle. -/
def Leaves (adj : TaskID → List TaskID) (before : Coloring) : Except DependencyError Coloring → Prop
  | .ok after => Kept before after ∧ ∀ m, after m = .gray → before m = .gray
  | .error error => Reported adj error

/-- The contract of the search below a path, and its independence of a larger bound. -/
structure Steady (adj : TaskID → List TaskID) (ids : Finset TaskID) (budget : Nat) (path : List TaskID)
    (search further : TaskID → Coloring → Except DependencyError Coloring) : Prop where
  leaves : ∀ n color, Enters adj ids path n color → (whites ids color).card ≤ budget → Leaves adj color (search n color)
  same : ∀ n color, Enters adj ids path n color → (whites ids color).card ≤ budget → further n color = search n color

variable {ids : Finset TaskID} {budget : Nat} {path : List TaskID}

theorem visitEach_steady {search further : TaskID → Coloring → Except DependencyError Coloring}
    (steady : Steady adj ids budget path search further) {ms : List TaskID}
    (next : ∀ m ∈ ms, m ∈ ids ∧ List.IsChain (fun n m => m ∈ adj n) (path ++ [m])) {color : Coloring}
    (gray : ∀ m, color m = .gray → m ∈ path) (left : (whites ids color).card ≤ budget) :
    Leaves adj color (visitEach search path ms color) ∧ visitEach further path ms color = visitEach search path ms color := by
  induction ms generalizing color with
  | nil => exact ⟨⟨fun _ white => white, fun _ gray => gray⟩, rfl⟩
  | cons m ms ih =>
    obtain ⟨⟨listed, walk⟩, rest⟩ := List.forall_mem_cons.mp next
    unfold visitEach
    cases found : color m with
    | gray => exact ⟨⟨path, m, rfl, walk, gray m found⟩, rfl⟩
    | black => exact ih rest gray left
    | white =>
      have enters : Enters adj ids path m color := ⟨listed, found, walk, gray⟩
      have left' := steady.leaves m color enters left
      simp only [steady.same m color enters left]
      cases visited : search m color with
      | error e =>
        rw [visited] at left'
        exact ⟨left', rfl⟩
      | ok mid =>
        rw [visited] at left'
        obtain ⟨kept, grayKept⟩ := left'
        obtain ⟨others, same⟩ := ih rest (fun x isGray => gray x (grayKept x isGray)) (le_trans (whites_mono kept) left)
        refine ⟨?_, same⟩
        simp only [Except.bind]
        cases after : visitEach search path ms mid with
        | error e =>
          rw [after] at others
          exact others
        | ok final =>
          rw [after] at others
          exact ⟨fun x white => kept x (others.1 x white), fun x isGray => grayKept x (others.2 x isGray)⟩

/-- With a bound for every white task a search ends, whatever the rest of the bound. -/
theorem visit_steady (closed : ∀ n ∈ ids, ∀ m ∈ adj n, m ∈ ids) (fuel more : Nat) (path : List TaskID) :
    Steady adj ids fuel path (visit adj fuel path) (visit adj (fuel + more) path) := by
  induction fuel generalizing path with
  | zero =>
    have none_left : ∀ n color, Enters adj ids path n color → ¬ (whites ids color).card ≤ 0 := by
      intro n color enters left
      have := whites_gray enters.listed enters.white
      omega
    exact ⟨fun n color enters left => absurd left (none_left n color enters),
      fun n color enters left => absurd left (none_left n color enters)⟩
  | succ fuel ih =>
    have step : ∀ n color, Enters adj ids path n color → (whites ids color).card ≤ fuel + 1 →
        Leaves adj color (visit adj (fuel + 1) path n color) ∧
          visit adj (fuel + 1 + more) path n color = visit adj (fuel + 1) path n color := by
      intro n color enters left
      have next : ∀ m ∈ adj n, m ∈ ids ∧ List.IsChain (fun n m => m ∈ adj n) (path ++ [n] ++ [m]) := by
        intro m dep
        refine ⟨closed n enters.listed m dep, ?_⟩
        rw [List.append_assoc, List.singleton_append, List.isChain_append_cons_cons]
        exact ⟨enters.walk, dep, List.isChain_singleton m⟩
      have gray : ∀ m, Function.update color n .gray m = .gray → m ∈ path ++ [n] := by
        intro m isGray
        by_cases same : m = n
        · simp [same]
        · rw [Function.update_of_ne same] at isGray
          exact List.mem_append_left [n] (enters.gray m isGray)
      have fewer := whites_gray enters.listed enters.white
      obtain ⟨deps, same⟩ := visitEach_steady (ih (path ++ [n])) next gray (by omega)
      have shift : fuel + 1 + more = fuel + more + 1 := by omega
      rw [shift]
      unfold visit
      rw [same]
      refine ⟨?_, rfl⟩
      cases inner : visitEach (visit adj fuel (path ++ [n])) (path ++ [n]) (adj n) (Function.update color n .gray) with
      | error e =>
        rw [inner] at deps
        exact deps
      | ok mid =>
        rw [inner] at deps
        obtain ⟨kept, grayKept⟩ := deps
        refine ⟨fun x white => ?_, fun x isGray => ?_⟩
        · by_cases here : x = n
          · simp [here] at white
          · simpa [here] using kept x (by simpa [here] using white)
        · by_cases here : x = n
          · simp [here] at isGray
          · simpa [here] using grayKept x (by simpa [here] using isGray)
    exact ⟨fun n color enters left => (step n color enters left).1, fun n color enters left => (step n color enters left).2⟩

theorem visitRoots_steady (closed : ∀ n ∈ ids, ∀ m ∈ adj n, m ∈ ids) {fuel : Nat} (more : Nat) {tasks : List Task}
    (listed : ∀ t ∈ tasks, t.id ∈ ids) {color : Coloring} (noGray : ∀ n, color n ≠ .gray)
    (left : (whites ids color).card ≤ fuel) :
    Leaves adj color (visitRoots adj fuel tasks color) ∧
      visitRoots adj (fuel + more) tasks color = visitRoots adj fuel tasks color := by
  induction tasks generalizing color with
  | nil => exact ⟨⟨fun _ white => white, fun _ gray => gray⟩, rfl⟩
  | cons t ts ih =>
    obtain ⟨first, rest⟩ := List.forall_mem_cons.mp listed
    unfold visitRoots
    by_cases white : color t.id = .white
    · have steady := visit_steady closed fuel more []
      have enters : Enters adj ids [] t.id color :=
        ⟨first, white, List.isChain_singleton t.id, fun m isGray => absurd isGray (noGray m)⟩
      have visitLeaves := steady.leaves t.id color enters left
      rw [if_pos white, if_pos white, steady.same t.id color enters left]
      cases visited : visit adj fuel [] t.id color with
      | error e =>
        rw [visited] at visitLeaves
        exact ⟨visitLeaves, rfl⟩
      | ok mid =>
        rw [visited] at visitLeaves
        obtain ⟨kept, grayKept⟩ := visitLeaves
        obtain ⟨others, same⟩ := ih rest (fun n isGray => noGray n (grayKept n isGray)) (le_trans (whites_mono kept) left)
        refine ⟨?_, same⟩
        simp only [Except.bind]
        cases after : visitRoots adj fuel ts mid with
        | error e =>
          rw [after] at others
          exact others
        | ok final =>
          rw [after] at others
          exact ⟨fun x isWhite => kept x (others.1 x isWhite), fun x isGray => grayKept x (others.2 x isGray)⟩
    · rw [if_neg white, if_neg white]
      exact ih rest noGray left

end Search

/-! ### Deciding -/

/-- A task depends on another when it lists it. -/
def DependsOn (tasks : List Task) (task dep : TaskID) : Prop := ∃ t ∈ tasks, t.id = task ∧ dep ∈ t.deps

/-- `detectCycle` with another bound on the depth of its recursion. -/
def detectCycleWithin (fuel : Nat) (tasks : List Task) : Except DependencyError Unit :=
  (visitRoots (adjacency tasks) fuel tasks (fun _ => .white)).map fun _ => ()

section Decide

variable {tasks : List Task}

theorem mem_adjacency (unique : (tasks.map (·.id)).Nodup) {n m : TaskID} :
    m ∈ adjacency tasks n ↔ DependsOn tasks n m := by
  unfold adjacency
  rw [List.findRev?_eq_find?_reverse]
  cases found : tasks.reverse.find? (·.id == n) with
  | none =>
    rw [List.find?_eq_none] at found
    constructor
    · intro dep
      simp at dep
    · rintro ⟨t, member, rfl, _⟩
      exact absurd (beq_self_eq_true t.id) (found t (List.mem_reverse.mpr member))
  | some u =>
    have same : u.id = n := by simpa using List.find?_some found
    have listed : u ∈ tasks := List.mem_reverse.mp (List.mem_of_find?_eq_some found)
    constructor
    · exact fun dep => ⟨u, listed, same, dep⟩
    · rintro ⟨t, member, id, dep⟩
      rwa [List.inj_on_of_nodup_map unique listed member (same.trans id.symm)]

theorem search_leaves (unique : (tasks.map (·.id)).Nodup) (known : ∀ t ∈ tasks, ∀ dep ∈ t.deps, dep ∈ tasks.map (·.id))
    {fuel : Nat} (enough : tasks.length ≤ fuel) (more : Nat) :
    Leaves (adjacency tasks) (fun _ => .white) (visitRoots (adjacency tasks) fuel tasks fun _ => .white) ∧
      visitRoots (adjacency tasks) (fuel + more) tasks (fun _ => .white) =
        visitRoots (adjacency tasks) fuel tasks fun _ => .white := by
  have closed : ∀ n ∈ (tasks.map (·.id)).toFinset, ∀ m ∈ adjacency tasks n, m ∈ (tasks.map (·.id)).toFinset := by
    intro n _ m dep
    obtain ⟨t, member, _, dep⟩ := (mem_adjacency unique).mp dep
    exact List.mem_toFinset.mpr (known t member m dep)
  apply visitRoots_steady closed
  · exact fun t member => List.mem_toFinset.mpr (List.mem_map_of_mem member)
  · simp
  · calc (whites (tasks.map (·.id)).toFinset fun _ => .white).card
        ≤ (tasks.map (·.id)).toFinset.card := Finset.card_filter_le ..
      _ ≤ (tasks.map (·.id)).length := List.toFinset_card_le _
      _ ≤ fuel := by simpa using enough

theorem detectCycleWithin_eq (unique : (tasks.map (·.id)).Nodup)
    (known : ∀ t ∈ tasks, ∀ dep ∈ t.deps, dep ∈ tasks.map (·.id)) {fuel : Nat} (enough : tasks.length ≤ fuel) :
    detectCycleWithin fuel tasks = detectCycleWithin tasks.length tasks := by
  obtain ⟨more, rfl⟩ := Nat.exists_eq_add_of_le enough
  unfold detectCycleWithin
  rw [(search_leaves unique known (le_refl _) more).2]

theorem detectCycle_reports (unique : (tasks.map (·.id)).Nodup)
    (known : ∀ t ∈ tasks, ∀ dep ∈ t.deps, dep ∈ tasks.map (·.id)) {error : DependencyError}
    (found : detectCycle tasks = .error error) : Reported (adjacency tasks) error := by
  have enough : tasks.length ≤ tasks.length + (tasks.map (·.deps.length)).sum := Nat.le_add_right _ _
  have leaves := (search_leaves unique known enough 0).1
  unfold detectCycle at found
  cases visited : visitRoots (adjacency tasks) (tasks.length + (tasks.map (·.deps.length)).sum) tasks
      (fun _ => .white) with
  | ok color => simp [visited, Except.map] at found
  | error e =>
    obtain rfl : e = error := by simpa [visited, Except.map] using found
    rw [visited] at leaves
    exact leaves

theorem Reported.cycle {error : DependencyError} (reported : Reported (adjacency tasks) error) (unique : (tasks.map (·.id)).Nodup) :
    ∃ path again, error = .cycle path again ∧ again ∈ path ∧ List.IsChain (DependsOn tasks) (path ++ [again]) := by
  obtain ⟨path, again, rfl, walk, visited⟩ := reported
  exact ⟨path, again, rfl, visited, walk.imp fun n m dep => (mem_adjacency unique).mp dep⟩

/-- An accepted list has no cycle: a task on one would be below itself. -/
theorem detectCycle_noCycle (unique : (tasks.map (·.id)).Nodup) (ok : detectCycle tasks = .ok ()) (task : TaskID) :
    ¬ Relation.TransGen (DependsOn tasks) task task := by
  intro round
  obtain ⟨dep, ⟨t, member, rfl, _⟩, _⟩ := Relation.TransGen.head'_iff.mp round
  have acc : Acc (fun m n => DependsOn tasks n m) t.id := by
    have below := detectCycle_acyclic ok member
    simpa only [mem_adjacency unique] using below
  exact not_transGen_self_of_acc acc (Relation.transGen_swap.mpr round)

/-- On unique ids and known dependencies the search ends, at any depth from the number of tasks on with
the same result; it accepts exactly the lists without a cycle, and what it reports of another is one. -/
theorem detectCycle_decides (tasks : List Task) (unique : (tasks.map (·.id)).Nodup)
    (known : ∀ t ∈ tasks, ∀ dep ∈ t.deps, dep ∈ tasks.map (·.id)) :
    (∀ fuel, tasks.length ≤ fuel → detectCycleWithin fuel tasks = detectCycle tasks) ∧
      (detectCycle tasks = .ok () ↔ ∀ task, ¬ Relation.TransGen (DependsOn tasks) task task) ∧
      (∀ error, detectCycle tasks = .error error → ∃ path again, error = .cycle path again ∧ again ∈ path ∧
        List.IsChain (DependsOn tasks) (path ++ [again])) := by
  refine ⟨?_, ⟨detectCycle_noCycle unique, ?_⟩, ?_⟩
  · intro fuel enough
    have own : detectCycle tasks = detectCycleWithin tasks.length tasks :=
      detectCycleWithin_eq unique known (Nat.le_add_right _ _)
    rw [own, detectCycleWithin_eq unique known enough]
  · intro noCycle
    cases found : detectCycle tasks with
    | ok _ => rfl
    | error error =>
      obtain ⟨path, again, _, visited, walk⟩ := (detectCycle_reports unique known found).cycle unique
      exact absurd (transGen_of_return walk visited) (noCycle again)
  · exact fun error found => (detectCycle_reports unique known found).cycle unique

/-- A diamond, listed from its end. -/
def diamond : List Task :=
  [{ id := "load", deps := ["left", "right"] }, { id := "left", deps := ["extract"] }, { id := "right", deps := ["extract"] },
    { id := "extract" }]

theorem diamond_decided : detectCycle diamond = .ok () ∧ ∀ task, ¬ Relation.TransGen (DependsOn diamond) task task := by
  have decides := detectCycle_decides diamond (by decide) (by decide)
  have accepted : detectCycle diamond = .ok () := by decide +kernel
  exact ⟨accepted, decides.2.1.mp accepted⟩

end Decide

end Cronova.Parser
