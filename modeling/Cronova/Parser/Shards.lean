import Cronova.Parser.Limits
import Cronova.Text.Decimal
import Cronova.Text.Template

/-! What `expandForeach` makes of a task list.

The item is a replacement text for the first regular expression, and what comes out is the text for
the second. So an item with a reference is rewritten, and one that completes a placeholder of the
index has it filled in.
-/

set_option autoImplicit false

namespace Cronova.Parser

open Model Text Checks
open Calendar (Time)

/-! ### The substitution -/

/-- `itemRe`. -/
def itemName : Name := ⟨"item".toList, by simp, by simp [isBlank]⟩

/-- `itemIndexRe`. -/
def itemIndexName : Name := ⟨"item_index".toList, by simp, by simp [isBlank]⟩

def indexText (i : Nat) : List Char := (toString i).toList

/-- The two replacements of `expandForeach`. -/
def fillShard (letter : Char → Bool) (item : String) (i : Nat) (text : String) : String :=
  String.ofList <| replaceAll itemIndexName (fun _ => indexText i) <|
    replaceAll itemName (expand letter item.toList) text.toList

/-- The library with the substitution of the parser. -/
def Library.filling (lib : Library) (letter : Char → Bool) : Library := { lib with fill := fillShard letter }

/-! ### What is meant -/

/-- Every placeholder of the text is filled in, the item as it is. -/
def meantText (item : String) (i : Nat) (text : String) : String :=
  String.ofList (fillBoth itemName itemIndexName item.toList (indexText i) text.toList)

/-- A dependency on a task with a `foreach` is one on each of its shards. -/
def meantDep (tasks : List TaskYAML) (dep : String) : List String :=
  match tasks.find? fun t => t.id = dep ∧ t.foreach ≠ [] with
  | some t => (List.range t.foreach.length).map fun i => t.id ++ "_" ++ toString i
  | none => [dep]

/-- The tasks that a task stands for. -/
def meantTasks (tasks : List TaskYAML) (t : TaskYAML) : List TaskYAML :=
  if t.foreach = [] then [{ t with deps := t.deps.flatMap (meantDep tasks) }]
  else t.foreach.zipIdx.map fun (item, i) =>
    { t with
      foreach := []
      id := t.id ++ "_" ++ toString i
      command := meantText item i t.command
      when_ := meantText item i t.when_
      deps := t.deps.flatMap (meantDep tasks) }

/-- An item is filled into a text as it is: the text asks for none, or the item has no reference and completes
no placeholder of the index. -/
def Verbatim (letter : Char → Bool) (item text : String) : Prop :=
  marks itemName text.toList = 0 ∨ isTemplate letter item.toList = false ∧
    marks itemIndexName (replaceAll itemName (fun _ => item.toList) text.toList) = marks itemIndexName text.toList

instance (letter : Char → Bool) (item text : String) : Decidable (Verbatim letter item text) :=
  inferInstanceAs (Decidable (_ ∨ _ ∧ _))

section Fill

variable {letter : Char → Bool}

theorem spelled_unmarked {name : Name} (unmarked : '$' ∉ name.text) {m : List Char} (spelled : Spelled name m) : m.count '$' = 0 := by
  obtain ⟨before, after, blanks, blanksAfter, rfl⟩ := spelled
  rw [List.count_eq_zero]
  simp only [List.mem_cons, List.mem_append, List.not_mem_nil, or_false]
  rintro (brace | brace | blank | named | blank | brace | brace)
  · exact absurd brace (by decide)
  · exact absurd brace (by decide)
  · exact absurd (blanks _ blank) (by decide)
  · exact unmarked named
  · exact absurd (blanksAfter _ blank) (by decide)
  · exact absurd brace (by decide)
  · exact absurd brace (by decide)

theorem count_indexText {c : Char} (other : c < '0' ∨ '9' < c) (i : Nat) : (indexText i).count c = 0 := by
  rw [List.count_eq_zero]
  intro member
  have decimal : indexText i = digits (width i) i := by
    unfold indexText
    rw [← toDigits_eq]
    simp [Nat.repr, ToString.toString]
  rw [decimal] at member
  obtain ⟨low, high⟩ := mem_digits member
  rcases other with below | above
  · exact absurd low (not_le.mpr below)
  · exact absurd high (not_le.mpr above)

/-- The code fills a text as it is meant exactly where its item goes in as it is. -/
theorem fillShard_eq_iff (item : String) (i : Nat) (text : String) :
    fillShard letter item i text = meantText item i text ↔ Verbatim letter item text := by
  have distinct : itemName.text ≠ itemIndexName.text := by decide
  have dollar : (indexText i).count '$' = 0 := count_indexText (.inl (by decide)) i
  have brace : (indexText i).count '{' = 0 := count_indexText (.inr (by decide)) i
  have item_unmarked : ∀ m, Spelled itemName m → m.count '$' = 0 := fun m => spelled_unmarked (by decide)
  have index_unmarked : ∀ m, Spelled itemIndexName m → m.count '$' = 0 := fun m => spelled_unmarked (by decide)
  have either : (∀ m, Spelled itemName m → expand letter item.toList m = item.toList) ∨
      ∀ m, Spelled itemName m → (expand letter item.toList m).count '$' < item.toList.count '$' := by
    cases template : isTemplate letter item.toList with
    | false => exact .inl fun m _ => expand_of_plain template
    | true => exact .inr fun m spelled => (count_expand (item_unmarked m spelled) item.toList).2 template
  unfold fillShard meantText Verbatim
  rw [String.ofList_inj, replaceAll_replaceAll_eq_iff distinct dollar brace index_unmarked either]
  have plain_iff : (∀ m, Spelled itemName m → expand letter item.toList m = item.toList) ↔ isTemplate letter item.toList = false := by
    constructor
    · intro whole
      have spelled : Spelled itemName "{{item}}".toList := ⟨[], [], by simp, by simp, by decide⟩
      by_contra template
      have lost := (count_expand (item_unmarked _ spelled) item.toList).2 (by simpa using template)
      rw [whole _ spelled] at lost
      exact lt_irrefl _ lost
    · exact fun plain m _ => expand_of_plain plain
  rw [plain_iff]

end Fill

/-! ### The task list -/

section Expand

variable {lib : Library} {dag : String} {tasks : List TaskYAML}

/-- The tasks that the code makes of a task. -/
def codeTasks (lib : Library) (tasks : List TaskYAML) (t : TaskYAML) : List TaskYAML :=
  (if t.foreach = [] then [t] else shards lib t).map fun t => { t with deps := t.deps.flatMap (expandDep tasks) }

theorem expandEach_eq {out : List TaskYAML} (ok : expandEach lib dag tasks = .ok out) :
    out = tasks.flatMap fun t => if t.foreach = [] then [t] else shards lib t := by
  induction tasks generalizing out with
  | nil =>
    cases ok
    rfl
  | cons t ts ih =>
    unfold expandEach at ok
    rw [List.flatMap_cons]
    split at ok
    · rename_i whole
      simp only [bind_eq_ok, pure_eq_ok] at ok
      obtain ⟨rest, expanded, rfl⟩ := ok
      rw [if_pos whole, ih expanded]
      rfl
    · rename_i fanned
      simp only [bind_eq_ok, pure_eq_ok, require_eq_ok, exists_and_left, exists_const] at ok
      obtain ⟨_, _, rest, expanded, rfl⟩ := ok
      rw [if_neg fanned, ih expanded]

theorem expandDep_of_plain (plain : ∀ t ∈ tasks, t.foreach = []) (dep : String) : expandDep tasks dep = [dep] := by
  have none_fanned : (tasks.filter fun t => t.foreach ≠ [] ∧ t.id = dep) = [] := by
    rw [List.filter_eq_nil_iff]
    intro t member
    simp [plain t member]
  unfold expandDep
  rw [none_fanned]
  rfl

/-- The fan-out goes task by task. -/
theorem expandForeach_eq {out : List TaskYAML} (ok : expandForeach lib dag tasks = .ok out) :
    out = tasks.flatMap (codeTasks lib tasks) := by
  unfold expandForeach at ok
  split at ok
  · rename_i plain
    obtain rfl : tasks = out := by simpa using ok
    have kept : ∀ t ∈ tasks, codeTasks lib tasks t = [t] := by
      intro t member
      have deps : t.deps.flatMap (expandDep tasks) = t.deps := by
        rw [funext (expandDep_of_plain plain)]
        exact List.flatMap_singleton' t.deps
      unfold codeTasks
      rw [if_pos (plain t member), List.map_singleton, deps]
    rw [List.flatMap_congr kept]
    exact (List.flatMap_singleton' tasks).symm
  · simp only [bind_eq_ok, pure_eq_ok, require_eq_ok, exists_and_left, exists_const] at ok
    obtain ⟨each, expanded, _, rfl⟩ := ok
    rw [expandEach_eq expanded, List.map_flatMap]
    rfl

theorem codeTasks_ids (t : TaskYAML) :
    (codeTasks lib tasks t).map (·.id) = if t.foreach = [] then [t.id] else (List.range t.foreach.length).map (shardID t.id) := by
  unfold codeTasks
  split
  · rfl
  · have ids : t.foreach.zipIdx.map (fun p => shardID t.id p.2) = (t.foreach.zipIdx.map Prod.snd).map (shardID t.id) := by
      rw [List.map_map]
      rfl
    unfold shards
    rw [List.map_map, List.map_map]
    calc _ = t.foreach.zipIdx.map (fun p => shardID t.id p.2) := rfl
      _ = _ := by rw [ids, List.zipIdx_map_snd, List.range_eq_range']

/-- The first shard of a task that is fanned out. -/
theorem shard_zero_mem {t : TaskYAML} (fanned : t.foreach ≠ []) : shardID t.id 0 ∈ (codeTasks lib tasks t).map (·.id) := by
  rw [codeTasks_ids, if_neg fanned]
  exact List.mem_map_of_mem (List.mem_range.mpr (List.length_pos_iff.mpr fanned))

/-- Tasks that come apart in the fan-out do not share an id, unless one is fanned out and the other is not. -/
theorem id_ne_of_apart {t u : TaskYAML} (alike : t.foreach = [] ↔ u.foreach = [])
    (apart : List.Disjoint ((codeTasks lib tasks t).map (·.id)) ((codeTasks lib tasks u).map (·.id))) : t.id ≠ u.id := by
  intro same
  by_cases whole : t.foreach = []
  · rw [codeTasks_ids, codeTasks_ids, if_pos whole, if_pos (alike.mp whole), same] at apart
    exact apart List.mem_cons_self List.mem_cons_self
  · have first : shardID t.id 0 ∈ (codeTasks lib tasks t).map (·.id) := shard_zero_mem whole
    rw [same] at first
    exact apart first (shard_zero_mem (mt alike.mpr whole))

variable (unique : ((tasks.flatMap (codeTasks lib tasks)).map (·.id)).Nodup)

include unique

theorem pairwise_apart : tasks.Pairwise fun t u =>
    List.Disjoint ((codeTasks lib tasks t).map (·.id)) ((codeTasks lib tasks u).map (·.id)) := by
  rw [List.map_flatMap, List.nodup_flatMap] at unique
  exact unique.2

/-- At most one task with a `foreach` has an id. -/
theorem expandDep_eq (dep : String) : expandDep tasks dep = meantDep tasks dep := by
  have apart := (pairwise_apart unique).filter (fun t => decide (t.foreach ≠ [] ∧ t.id = dep))
  have order : (fun t : TaskYAML => decide (t.id = dep ∧ t.foreach ≠ [])) = fun t => decide (t.foreach ≠ [] ∧ t.id = dep) := by
    funext t
    exact decide_eq_decide.mpr and_comm
  unfold expandDep meantDep
  rw [order, ← List.head?_filter]
  have listed : ∀ t ∈ tasks.filter (fun t => t.foreach ≠ [] ∧ t.id = dep), t.foreach ≠ [] ∧ t.id = dep := by
    intro t member
    simpa using (List.mem_filter.mp member).2
  cases found : tasks.filter fun t => t.foreach ≠ [] ∧ t.id = dep with
  | nil => rfl
  | cons t others =>
    rw [found] at apart listed
    cases others with
    | nil =>
      rw [if_neg (List.cons_ne_nil t []), List.flatMap_singleton]
      rfl
    | cons u others =>
      obtain ⟨fanned, id⟩ := listed t List.mem_cons_self
      obtain ⟨fanned', id'⟩ := listed u (List.mem_cons_of_mem t List.mem_cons_self)
      have disjoint := (List.pairwise_cons.mp apart).1 u List.mem_cons_self
      exact absurd (id.trans id'.symm) (id_ne_of_apart (iff_of_false fanned fanned') disjoint)

/-- Two source tasks share an id only where one of them is fanned out. -/
theorem source_nodup_iff : (tasks.map (·.id)).Nodup ↔ ∀ t ∈ tasks, ∀ u ∈ tasks, t.foreach ≠ [] → u.foreach = [] → t.id ≠ u.id := by
  constructor
  · intro distinct t member u member' fanned whole same
    obtain rfl := List.inj_on_of_nodup_map distinct member member' same
    exact fanned whole
  · intro apart
    have disjoint := pairwise_apart unique
    rw [List.Nodup, List.pairwise_map]
    refine disjoint.imp_of_mem fun {t u} member member' disjoint => ?_
    by_cases alike : t.foreach = [] ↔ u.foreach = []
    · exact id_ne_of_apart alike disjoint
    · by_cases whole : t.foreach = []
      · exact (apart u member' t member (fun other => alike (iff_of_true whole other)) whole).symm
      · exact apart t member u member' whole (by_contra fun other => alike (iff_of_false whole other))

end Expand

/-! ### Deciding -/

theorem flatMap_eq_iff {A B : Type} {f g : A → List B} {as : List A} (lengths : ∀ a ∈ as, (f a).length = (g a).length) :
    as.flatMap f = as.flatMap g ↔ ∀ a ∈ as, f a = g a := by
  induction as with
  | nil => simp
  | cons a as ih =>
    obtain ⟨first, rest⟩ := List.forall_mem_cons.mp lengths
    rw [List.flatMap_cons, List.flatMap_cons, List.forall_mem_cons, ← ih rest]
    constructor
    · exact fun same => List.append_inj same first
    · rintro ⟨here, later⟩
      rw [here, later]

section Decide

variable {lib : Library} {letter : Char → Bool} {tasks : List TaskYAML}

theorem codeTasks_eq_iff (deps : ∀ dep, expandDep tasks dep = meantDep tasks dep) (t : TaskYAML) :
    codeTasks (lib.filling letter) tasks t = meantTasks tasks t ↔
      ∀ item ∈ t.foreach, Verbatim letter item t.command ∧ Verbatim letter item t.when_ := by
  have rewired : t.deps.flatMap (expandDep tasks) = t.deps.flatMap (meantDep tasks) := by rw [funext deps]
  unfold codeTasks meantTasks
  split
  · rename_i whole
    simp only [List.map_singleton, rewired, whole, List.not_mem_nil, false_implies, implies_true]
  · unfold shards
    rw [List.map_map, List.map_inj_left]
    constructor
    · intro same item member
      obtain ⟨i, inside, rfl⟩ := List.mem_iff_getElem.mp member
      have shard := same (t.foreach[i], i) (List.mk_mem_zipIdx_iff_getElem?.mpr (List.getElem?_eq_getElem inside))
      simp only [Function.comp_apply, TaskYAML.mk.injEq] at shard
      exact ⟨(fillShard_eq_iff _ i _).mp shard.2.2.1, (fillShard_eq_iff _ i _).mp (by tauto)⟩
    · rintro verbatim ⟨item, i⟩ member
      obtain ⟨command, when_⟩ := verbatim item (List.fst_mem_of_mem_zipIdx member)
      have filledCommand := (fillShard_eq_iff item i t.command).mpr command
      have filledWhen := (fillShard_eq_iff item i t.when_).mpr when_
      simp only [Function.comp_apply, rewired, Library.filling, filledCommand, filledWhen]
      rfl

theorem codeTasks_length (t : TaskYAML) : (codeTasks lib tasks t).length = (meantTasks tasks t).length := by
  unfold codeTasks meantTasks
  split
  · rfl
  · simp [shards]

end Decide

/-- The tasks of an accepted document come apart as they are meant to, with no id written twice, exactly where every item goes
into the texts as it is and no task with a `foreach` has the id of one without. -/
theorem expandForeach_meant (lib : Library) (letter : Char → Bool) (now : Time) (raw : String) (y : DagYAML) (d : ParsedDAG)
    (read : lib.decode raw = some y) (ok : parse (lib.filling letter) now raw = .ok d) :
    expandForeach (lib.filling letter) y.dagID y.tasks = .ok (y.tasks.flatMap (meantTasks y.tasks)) ∧ (y.tasks.map (·.id)).Nodup ↔
      (∀ t ∈ y.tasks, ∀ item ∈ t.foreach, Verbatim letter item t.command ∧ Verbatim letter item t.when_) ∧
        ∀ t ∈ y.tasks, ∀ u ∈ y.tasks, t.foreach ≠ [] → u.foreach = [] → t.id ≠ u.id := by
  obtain ⟨expanded, builds⟩ := build_builds ((@parse_eq_ok (lib.filling letter) now raw y d read).mp ok).2.2
  have code := expandForeach_eq builds.expands
  have unique : ((y.tasks.flatMap (codeTasks (lib.filling letter) y.tasks)).map (·.id)).Nodup :=
    code ▸ (parseTasks_nodup builds.tasks).1
  have lengths : ∀ t ∈ y.tasks, (codeTasks (lib.filling letter) y.tasks t).length = (meantTasks y.tasks t).length :=
    fun t _ => codeTasks_length t
  rw [source_nodup_iff unique, builds.expands, Except.ok.injEq, code, flatMap_eq_iff lengths]
  simp only [codeTasks_eq_iff (expandDep_eq unique)]

/-! ### Two documents -/

def loadsText : String :=
  "dag_id: loads\ntasks:\n- id: load\n  command: ./load --part=\x7b\x7bitem_index\x7d\x7d \x7b\x7b item \x7d\x7d\n  foreach: [eu, us]\n" ++
    "- id: merge\n  command: ./merge\n  deps: [load]\n"

def loads : DagYAML where
  dagID := "loads"
  tasks := [
    { id := "load", command := "./load --part=\x7b\x7bitem_index\x7d\x7d \x7b\x7b item \x7d\x7d", foreach := ["eu", "us"] },
    { id := "merge", command := "./merge", deps := ["load"] }]

/-- One item is taken for a reference and the other for a placeholder, and a plain task has the id of the shards'. -/
def homesText : String :=
  "dag_id: homes\ntasks:\n- id: list\n  command: ls \x7b\x7b item \x7d\x7d\n  foreach: [$HOME, '\x7b\x7b item_index \x7d\x7d']\n" ++
    "- id: list\n  command: ls /\n"

def homes : DagYAML where
  dagID := "homes"
  tasks := [
    { id := "list", command := "ls \x7b\x7b item \x7d\x7d", foreach := ["$HOME", "\x7b\x7b item_index \x7d\x7d"] },
    { id := "list", command := "ls /" }]

def textsLibrary : Library :=
  ({ decode := fun text => if text = loadsText then some loads else if text = homesText then some homes else none
     loadLocation := fun _ => false
     parseSchedule := fun _ _ => false
     parseDate := fun _ _ => none
     validOffset := fun _ => false
     fill := fun _ _ text => text } : Library).filling fun _ => false

def homesTasks : List TaskYAML :=
  [{ id := "list_0", command := "ls " }, { id := "list_1", command := "ls 1" }, { id := "list", command := "ls /" }]

theorem homes_rewritten :
    parse textsLibrary 0 homesText = .ok (dagOf homesText homes 0 [] [] {} (homesTasks.map fun t => taskOf homes t none none)) ∧
      expandForeach textsLibrary homes.dagID homes.tasks = .ok homesTasks ∧
        homes.tasks.flatMap (meantTasks homes.tasks) =
          [{ id := "list_0", command := "ls $HOME" }, { id := "list_1", command := "ls \x7b\x7b item_index \x7d\x7d" },
            { id := "list", command := "ls /" }] ∧
          ¬ (homes.tasks.map (·.id)).Nodup := by
  decide +kernel

def loadsTasks : List TaskYAML :=
  [{ id := "load_0", command := "./load --part=0 eu" }, { id := "load_1", command := "./load --part=1 us" },
    { id := "merge", command := "./merge", deps := ["load_0", "load_1"] }]

theorem loads_meant : expandForeach textsLibrary loads.dagID loads.tasks = .ok loadsTasks ∧
    (loads.tasks.map (·.id)).Nodup := by
  have meant := (expandForeach_meant textsLibrary (fun _ => false) 0 loadsText loads
    (dagOf loadsText loads 0 [] [] {} (loadsTasks.map fun t => taskOf loads t none none)) (by decide +kernel)
    (by decide +kernel)).mpr (by decide +kernel)
  have same : loads.tasks.flatMap (meantTasks loads.tasks) = loadsTasks := by decide +kernel
  rw [same] at meant
  exact meant

end Cronova.Parser
