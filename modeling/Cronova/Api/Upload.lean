import Cronova.Api.Staging
import Cronova.Text.Decimal

/-! Uploads are confined and all or nothing: the tree that was staged is swapped in whole, and until
then the project is not touched. -/

set_option autoImplicit false

namespace Cronova.Api.Projects

open Process Files
open Http (join_singleton)

/-! ### Names -/

section Names

variable {a : Site} {name : Chars}

theorem plain_of_valid (valid : validProjectName name = true) : Plain name := by
  simp only [validProjectName, Bool.and_eq_true, bne_iff_ne, ne_eq, List.all_eq_true] at valid
  obtain ⟨⟨⟨notDot, notUp⟩, nonempty⟩, every⟩ := valid
  refine ⟨nonempty, notDot, notUp, fun listed => ?_⟩
  exact absurd (every _ listed) (by decide)

theorem digits_plain (n : Nat) : '/' ∉ digits n := by
  intro listed
  rcases Text.mem_toString_int (n := (n : Int)) listed with ⟨low, _⟩ | wrong
  · exact absurd low (by decide)
  · cases wrong

/-- The name of a directory that the upload makes is that of no project that it is for. -/
theorem own_name {front : List Char} (free : '/' ∉ front) (long : 2 ≤ front.length) (plain : Plain name) (n : Nat) :
    Plain (front ++ name ++ ['-'] ++ digits n) ∧ front ++ name ++ ['-'] ++ digits n ≠ name := by
  have length : 3 ≤ (front ++ name ++ ['-'] ++ digits n).length := by
    simp only [List.length_append, List.length_singleton]
    omega
  refine ⟨⟨?_, ?_, ?_, ?_⟩, fun same => ?_⟩
  · intro same
    rw [same] at length
    exact absurd length (by decide)
  · intro same
    rw [same] at length
    exact absurd length (by decide)
  · intro same
    rw [same] at length
    exact absurd length (by decide)
  · have := digits_plain n
    have := plain.free
    simp [*]
  · have lengths := congrArg List.length same
    simp only [List.length_append, List.length_singleton] at lengths
    omega

theorem staged_name (plain : Plain a.name) (n : Nat) : Plain (a.staged ++ digits n) ∧ a.staged ++ digits n ≠ a.name :=
  own_name (by decide) (by decide) plain n

theorem previous_name (plain : Plain a.name) (n : Nat) : Plain (a.previous ++ digits n) ∧ a.previous ++ digits n ≠ a.name :=
  own_name (by decide) (by decide) plain n

theorem staged_ne_previous (a : Site) (n m : Nat) : a.staged ++ digits n ≠ a.previous ++ digits m := by
  intro same
  unfold Site.staged Site.previous at same
  simp at same

end Names

/-! ### The contract, outside the staging directory -/

section Calls

variable {a : Site} {w : World} {o : Op} {top : Seg} {path dir front : Chars}

/-- Where nothing is now although the upload does not own it, nothing was. -/
theorem Site.Kept.fresh (kept : a.Kept w) (own : ∃ n, top = a.staged ++ digits n ∨ top = a.previous ++ digits n)
    (free : w.disk.node (a.base ++ [top]) = none) : top = a.name ∨ a.Fresh top := by
  by_contra other
  have alien : ¬ a.Owns (a.base ++ [top]) := by
    rintro ⟨top', rest, mine, same⟩
    obtain ⟨rfl, rfl⟩ := List.cons.inj (List.append_cancel_left same)
    exact other mine
  rcases kept.others _ alien with same | ⟨_, _, made⟩
  · exact other (.inr ⟨own, same.symm.trans free⟩)
  · rw [free] at made
    cases made

/-- A call that goes to one entry of the projects. -/
theorem confined_entry (own : top = a.name ∨ a.Fresh top) (direct : w.disk.node (a.base ++ [top]) ≠ some .special)
    (reach : ∀ loc, o.Reaches w.cwd w.disk loc → a.base ++ [top] <+: loc) (makes : ∀ loc, ¬ o.Makes w.cwd loc)
    (targets : o.targets w.cwd = [a.base ++ [top]]) : a.Confined w o where
  reach loc reached := Site.owns_below own (reach loc reached)
  makes loc made := absurd made (makes loc)
  direct target member way within below := by
    rw [targets] at member
    obtain rfl := List.mem_singleton.mp member
    rcases List.prefix_concat_iff.mp within with rfl | above
    · exact direct
    · exact absurd above below

theorem confined_rename {old new : Chars} {x y : Seg} (from_ : x = a.name ∨ a.Fresh x) (to_ : y = a.name ∨ a.Fresh y)
    (leads : place w.cwd old = a.base ++ [x]) (goes : place w.cwd new = a.base ++ [y])
    (direct : w.disk.node (a.base ++ [x]) ≠ some .special) (free : w.disk.node (a.base ++ [y]) = none) :
    a.Confined w (.rename old new) where
  reach loc reached := by
    rcases reached with left | right
    · exact Site.owns_below from_ (leads ▸ left)
    · exact Site.owns_below to_ (goes ▸ right)
  makes loc made := made.elim
  direct target member way within below := by
    have ends : target = a.base ++ [x] ∨ target = a.base ++ [y] := by
      rw [← leads, ← goes]
      simpa [Op.targets] using member
    rcases ends with rfl | rfl
    · rcases List.prefix_concat_iff.mp within with rfl | above
      · exact direct
      · exact absurd above below
    · rcases List.prefix_concat_iff.mp within with rfl | above
      · rw [free]
        exact nofun
      · exact absurd above below

/-- `MkdirTemp` in the projects directory makes a directory that the upload owns. -/
theorem confined_mkdirTemp (kept : a.Kept w) (some_ : dir ≠ []) (leads : place w.cwd dir = a.base) (plain : Plain a.name)
    (kind : front = a.staged ∨ front = a.previous) : a.Confined w (.mkdirTemp dir front) where
  reach loc reached := by
    obtain ⟨free, n, rfl⟩ := reached
    have named : Plain (front ++ digits n) := by
      rcases kind with rfl | rfl
      · exact (staged_name plain n).1
      · exact (previous_name plain n).1
    rw [place_entryPath some_ named, leads] at free ⊢
    refine Site.owns_below (kept.fresh ⟨n, ?_⟩ free) (List.prefix_refl _)
    rcases kind with rfl | rfl
    · exact .inl rfl
    · exact .inr rfl
  makes loc made := made.elim
  direct target member way within below := by
    obtain rfl := List.mem_singleton.mp member
    exact absurd (leads ▸ within) below

/-- What a call does not reach it leaves, where no directory is to be made. -/
theorem layer_left {root : List Seg} (away : ∀ names, ¬ o.Reaches w.cwd w.disk (root ++ names)) (makes : ∀ names, ¬ o.Makes w.cwd (root ++ names)) :
    (handler o w).2.disk.layer root = w.disk.layer root := by
  funext names
  rcases answer_frame w.cwd w.turn o w.disk (away names) with same | ⟨made, _⟩
  · exact same
  · exact absurd made (makes names)

theorem siblings_apart {base : List Seg} {x y : Seg} (other : x ≠ y) (names : List Seg) : ¬ base ++ [x] <+: base ++ [y] ++ names := by
  rintro ⟨rest, same⟩
  rw [List.append_assoc, List.append_assoc] at same
  exact other (List.cons.inj (List.append_cancel_left same)).1

theorem removeAll_layer {base : List Seg} {x y : Seg} (leads : place w.cwd path = base ++ [x]) (other : x ≠ y) :
    (handler (.removeAll path) w).2.disk.layer (base ++ [y]) = w.disk.layer (base ++ [y]) := by
  apply layer_left
  · intro names reached
    have within : place w.cwd path <+: base ++ [y] ++ names := reached
    rw [leads] at within
    exact siblings_apart other names within
  · exact fun _ => id

theorem entry_layer {base : List Seg} {x y : Seg} {u : World} (changed : ∀ loc, ¬ base ++ [x] <+: loc → u.disk.node loc = w.disk.node loc)
    (other : x ≠ y) : u.disk.layer (base ++ [y]) = w.disk.layer (base ++ [y]) :=
  funext fun names => changed _ (siblings_apart other names)

/-- A directory takes the place of nothing beside it. -/
theorem rename_layers {base : List Seg} {old new : Chars} {x y : Seg} (leads : place w.cwd old = base ++ [x])
    (goes : place w.cwd new = base ++ [y]) (other : x ≠ y) (done : (handler (.rename old new) w).1 = .ok ()) :
    (handler (.rename old new) w).2.disk.layer (base ++ [y]) = w.disk.layer (base ++ [x]) ∧
      (handler (.rename old new) w).2.disk.layer (base ++ [x]) = (fun _ => none) ∧
      (∀ z, z ≠ x → z ≠ y → (handler (.rename old new) w).2.disk.layer (base ++ [z]) = w.disk.layer (base ++ [z])) ∧
      (handler (.rename old new) w).2.disk.node base = w.disk.node base := by
  have node := rename_ok done
  rw [leads, goes] at node
  have whole (root names : List Seg) : root <+: root ++ names := List.prefix_append root names
  refine ⟨?_, ?_, fun z left right => ?_, ?_⟩
  · funext names
    rw [Tree.layer, node, if_pos (whole _ _), List.drop_left]
    rfl
  · funext names
    rw [Tree.layer, node, if_neg (siblings_apart (Ne.symm other) names), if_pos (whole _ _)]
  · funext names
    rw [Tree.layer, node, if_neg (siblings_apart (Ne.symm right) names), if_neg (siblings_apart (Ne.symm left) names)]
    rfl
  · have short (z : Seg) : ¬ base ++ [z] <+: base := fun within => by
      have length := within.length_le
      simp at length
    rw [node, if_neg (short y), if_neg (short x)]

end Calls

/-! ### The swap -/

/-- What fails at the calls of the upload, by their number. -/
def Site.faultAt (a : Site) (i : Nat) : Option Fault := ((a.start.turns.drop i).headD ⟨none, []⟩).fault

/-- The project is as it was; or two calls in a row fail, the swap and the way back, and the old tree waits whole in the
directory that was made for it. -/
def Site.Survives (a : Site) (w : World) : Prop :=
  w.disk.layer a.project = a.start.disk.layer a.project ∨
    (∃ i, a.faultAt i ≠ none ∧ a.faultAt (i + 1) ≠ none) ∧
      ∃ n, a.Fresh (a.previous ++ digits n) ∧ w.disk.layer (a.base ++ [a.previous ++ digits n]) = a.start.disk.layer a.project

/-- How a program that is to put a tree in the place of the project ends. -/
structure Site.Swapped (a : Site) (top : Seg) {A : Type} (tree : Layer Seg Bytes) (r : Except Failure A) (w : World) : Prop where
  kept : a.Kept w
  clear : w.disk.node (a.base ++ [top]) ≠ some .special
  fails : ∀ e, r = .error e → a.Survives w
  succeeds : ∀ x, r = .ok x → w.disk.layer a.project = tree

/-- The old tree may have been put aside, and the new one is ready. -/
structure Site.Waiting (a : Site) (top back : Seg) (tree : Layer Seg Bytes) (w : World) : Prop where
  kept : a.Kept w
  staged : a.Fresh top
  fresh : a.Fresh back
  named : ∃ n, back = a.previous ++ digits n
  apart : back ≠ top
  other : top ≠ a.name
  another : back ≠ a.name
  base : w.disk.node a.base = some .dir
  staging : w.disk.layer (a.base ++ [top]) = tree
  root : tree [] = some .dir

section Swaps

variable {a : Site} {w : World} {top back : Seg} {tree : Layer Seg Bytes} {dst staging backup : Chars} {e : OsErr}

theorem node_layer (w : World) (root : List Seg) : w.disk.node root = w.disk.layer root [] := by rw [Tree.layer, List.append_nil]

/-- A directory can take the place of nothing beside it, unless the call itself fails. -/
theorem rename_fault {base : List Seg} {old new : Chars} {x y : Seg} (leads : place w.cwd old = base ++ [x])
    (goes : place w.cwd new = base ++ [y]) (other : x ≠ y) (is_dir : w.disk.node (base ++ [x]) = some .dir)
    (free : w.disk.node (base ++ [y]) = none) (parent : w.disk.node base = some .dir)
    (failed : (handler (.rename old new) w).1 = .error e) : w.turn.fault ≠ none := by
  intro calm
  have done : (handler (.rename old new) w).1 = .ok () := by
    apply rename_answers calm
    · rw [leads, is_dir]
    · rw [goes, free]
    · rw [goes, List.dropLast_concat, parent]
    · rw [leads, goes]
      simpa using @siblings_apart base x y other []
    · rw [leads, goes]
      simpa using @siblings_apart base y x (Ne.symm other) []
  rw [done] at failed
  cases failed

/-- The old tree is aside: it is removed when the new one has its place, and otherwise put back. -/
theorem swapIn_old (waiting : a.Waiting top back tree w) (leads : place a.start.cwd dst = a.project)
    (goes : place a.start.cwd staging = a.base ++ [top]) (aside : place a.start.cwd backup = a.base ++ [back])
    (free : w.disk.node a.project = none) (was : a.start.disk.node a.project = some .dir)
    (old : w.disk.layer (a.base ++ [back]) = a.start.disk.layer a.project) :
    (swapIn dst staging backup true).Safe a.uploading (a.Swapped top tree) w := by
  have is_dir : w.disk.node (a.base ++ [top]) = some .dir := by rw [node_layer, waiting.staging, waiting.root]
  have back_dir : w.disk.node (a.base ++ [back]) = some .dir := by rw [node_layer, old, Tree.layer, List.append_nil, was]
  have goesW : place w.cwd staging = a.base ++ [top] := by rw [waiting.kept.cwd, goes]
  have leadsW : place w.cwd dst = a.base ++ [a.name] := by rw [waiting.kept.cwd, leads]; rfl
  have swapping : a.Confined w (.rename staging dst) :=
    confined_rename (.inr waiting.staged) (.inl rfl) goesW leadsW (by rw [is_dir]; rintro ⟨⟩) free
  refine Site.called swapping fun kept => ?_
  cases answered : (handler (.rename staging dst) w).1 with
  | ok _ =>
    obtain ⟨there, gone, others, _⟩ := rename_layers goesW leadsW waiting.other answered
    have stays := others back waiting.apart waiting.another
    generalize (handler (.rename staging dst) w).2 = u at kept there gone stays
    have asideU : place u.cwd backup = a.base ++ [back] := by rw [kept.cwd, aside]
    have still_dir : u.disk.node (a.base ++ [back]) = some .dir := by rw [node_layer, stays, ← node_layer, back_dir]
    have removing : a.Confined u (.removeAll backup) :=
      confined_entry (.inr waiting.fresh) (by rw [still_dir]; rintro ⟨⟩) (fun loc reached => asideU ▸ reached) (fun _ => id)
        (by rw [← asideU]; rfl)
    refine Site.called removing fun kept => ⟨kept, ?_, by rintro _ ⟨⟩, fun _ _ => ?_⟩
    · rw [node_layer, removeAll_layer asideU waiting.apart, gone]
      rintro ⟨⟩
    · exact (removeAll_layer asideU waiting.another).trans (there.trans waiting.staging)
  | error e =>
    have same := rename_error answered
    have first := rename_fault goesW leadsW waiting.other is_dir free waiting.base answered
    have turns : (handler (.rename staging dst) w).2.turns = w.turns.tail := rfl
    generalize (handler (.rename staging dst) w).2 = u at kept same turns
    have asideU : place u.cwd backup = a.base ++ [back] := by rw [kept.cwd, aside]
    have leadsU : place u.cwd dst = a.base ++ [a.name] := by rw [kept.cwd, leads]; rfl
    have restoring : a.Confined u (.rename backup dst) :=
      confined_rename (.inr waiting.fresh) (.inl rfl) asideU leadsU (by rw [same, back_dir]; rintro ⟨⟩) (by rw [same]; exact free)
    refine Site.called restoring fun kept => ?_
    show a.Swapped top tree (.error (.os e)) _
    cases answered : (handler (.rename backup dst) u).1 with
    | ok _ =>
      obtain ⟨there, _, others, _⟩ := rename_layers asideU leadsU waiting.another answered
      refine ⟨kept, ?_, fun _ _ => .inl ?_, by rintro _ ⟨⟩⟩
      · rw [node_layer, others top waiting.apart.symm waiting.other, same, ← node_layer, is_dir]
        rintro ⟨⟩
      · exact (there.trans (same ▸ rfl)).trans old
    | error e' =>
      have second := rename_fault asideU leadsU waiting.another (same ▸ back_dir) (same ▸ free) (same ▸ waiting.base) answered
      obtain ⟨i, at_⟩ := waiting.kept.turns
      obtain ⟨n, rfl⟩ := waiting.named
      refine ⟨kept, ?_, fun _ _ => .inr ⟨⟨i, ?_, ?_⟩, n, waiting.fresh, ?_⟩, by rintro _ ⟨⟩⟩
      · rw [rename_error answered, same, is_dir]
        rintro ⟨⟩
      · rwa [World.turn, at_] at first
      · rwa [World.turn, turns, at_, List.tail_drop] at second
      · rw [rename_error answered, same, old]

/-- There was no project. -/
theorem swapIn_new (waiting : a.Waiting top back tree w) (leads : place a.start.cwd dst = a.project)
    (goes : place a.start.cwd staging = a.base ++ [top]) (free : w.disk.node a.project = none)
    (old : w.disk.layer a.project = a.start.disk.layer a.project) :
    (swapIn dst staging backup false).Safe a.uploading (a.Swapped top tree) w := by
  have is_dir : w.disk.node (a.base ++ [top]) = some .dir := by rw [node_layer, waiting.staging, waiting.root]
  have goesW : place w.cwd staging = a.base ++ [top] := by rw [waiting.kept.cwd, goes]
  have leadsW : place w.cwd dst = a.base ++ [a.name] := by rw [waiting.kept.cwd, leads]; rfl
  have swapping : a.Confined w (.rename staging dst) :=
    confined_rename (.inr waiting.staged) (.inl rfl) goesW leadsW (by rw [is_dir]; exact nofun) free
  refine Site.called swapping fun kept => ?_
  cases answered : (handler (.rename staging dst) w).1 with
  | ok _ =>
    obtain ⟨there, gone, _, _⟩ := rename_layers goesW leadsW waiting.other answered
    refine ⟨kept, ?_, nofun, fun _ _ => there.trans waiting.staging⟩
    rw [node_layer, gone]
    exact nofun
  | error e =>
    have same := rename_error answered
    refine ⟨kept, ?_, fun _ _ => .inl ?_, nofun⟩
    · rw [same, is_dir]
      exact nofun
    · rw [same, old]

/-- The old tree, where there is one, is put aside, and the new one takes its place. -/
theorem putAside_safe (waiting : a.Waiting top back tree w) (leads : place a.start.cwd dst = a.project)
    (goes : place a.start.cwd staging = a.base ++ [top]) (aside : place a.start.cwd backup = a.base ++ [back])
    (gone : w.disk.node (a.base ++ [back]) = none) (project : w.disk.layer a.project = a.start.disk.layer a.project)
    (old : a.start.disk.node a.project = none ∨ a.start.disk.node a.project = some .dir) :
    (putAside dst staging backup).Safe a.uploading (a.Swapped top tree) w := by
  have undone {e : Failure} {u : World} (kept : a.Kept u) (same : u.disk = w.disk) : a.Swapped top (A := Unit) tree (.error e) u := by
    refine ⟨kept, ?_, fun _ _ => .inl ?_, nofun⟩
    · rw [same, node_layer, waiting.staging, waiting.root]
      exact nofun
    · rw [same, project]
  refine Site.called (Site.confined_still (fun _ => id) (fun _ => id) rfl) fun kept => ?_
  have same := stat_disk dst w
  have leadsW : place w.cwd dst = a.project := by rw [waiting.kept.cwd, leads]
  cases answered : (handler (.stat dst) w).1 with
  | error e =>
    generalize (handler (.stat dst) w).2 = u at kept same
    have later : a.Waiting top back tree u := { waiting with kept, base := same ▸ waiting.base, staging := same ▸ waiting.staging }
    show (ite _ _ _ : Act Unit).Safe _ _ u
    split
    · rename_i said
      have free := stat_missing answered said
      rw [leadsW, ← same] at free
      exact swapIn_new later leads goes free (same ▸ project)
    · exact undone kept same
  | ok kind =>
    obtain ⟨entry, found, _⟩ := stat_ok answered
    rw [leadsW, ← same] at found
    generalize (handler (.stat dst) w).2 = u at kept same found
    have was : a.start.disk.node a.project = some .dir := by
      refine old.resolve_left fun free => ?_
      rw [node_layer, same, project, ← node_layer a.start, free] at found
      cases found
    have now : u.disk.node a.project = some .dir := by rw [node_layer, same, project, ← node_layer a.start, was]
    have leadsU : place u.cwd dst = a.base ++ [a.name] := by rw [kept.cwd, leads]; rfl
    have asideU : place u.cwd backup = a.base ++ [back] := by rw [kept.cwd, aside]
    have moving : a.Confined u (.rename dst backup) :=
      confined_rename (.inl rfl) (.inr waiting.fresh) leadsU asideU (by rw [← Site.project, now]; exact nofun) (by rw [same, gone])
    refine Site.called moving fun kept => ?_
    cases answered : (handler (.rename dst backup) u).1 with
    | error e => exact undone kept ((rename_error answered).trans same)
    | ok _ =>
      obtain ⟨there, left, others, base⟩ := rename_layers leadsU asideU waiting.another.symm answered
      have staging := others top waiting.other waiting.apart.symm
      generalize (handler (.rename dst backup) u).2 = v at kept there left staging base
      have later : a.Waiting top back tree v :=
        { waiting with
          kept
          base := by rw [base, same, waiting.base]
          staging := by rw [staging, same, waiting.staging] }
      have free : v.disk.node a.project = none := by
        rw [node_layer]
        exact congrFun left []
      refine swapIn_old later leads goes aside free was ?_
      rw [there, same]
      exact project

/-- The staged tree becomes the project, or the project survives. -/
theorem commitProjectTree_safe (stage : a.Stage top w) (plain : Plain a.name) (some_ : a.projectsDir ≠ [])
    (goes : place a.start.cwd staging = a.base ++ [top])
    (old : a.start.disk.node a.project = none ∨ a.start.disk.node a.project = some .dir) :
    (commitProjectTree (joinPath [a.projectsDir, a.name]) staging).Safe a.uploading
      (a.Swapped top (w.disk.layer (a.base ++ [top]))) w := by
  have single : ∀ seg ∈ [a.name], Plain seg := by simpa using plain
  have leads : place a.start.cwd (joinPath [a.projectsDir, a.name]) = a.project := by
    have whole := @place_joinPath _ a.start.cwd _ some_ (List.cons_ne_nil _ _) single
    rwa [join_singleton] at whole
  have parent : place a.start.cwd (dirPath (joinPath [a.projectsDir, a.name])) = a.base := by
    have whole := @place_dirPath a.name [] a.start.cwd a.projectsDir some_ nofun plain
    rwa [List.nil_append, join_singleton, List.append_nil] at whole
  have named : ".previous-".toList ++ basePath (joinPath [a.projectsDir, a.name]) ++ ['-'] = a.previous := by
    rw [basePath_joinPath some_ plain]
    rfl
  have dir_some : dirPath (joinPath [a.projectsDir, a.name]) ≠ [] := clean_ne_nil _
  have root : w.disk.node (a.base ++ [top]) = some .dir := stage.way _ (List.prefix_refl _)
  have undone {A : Type} {e : Failure} {u : World} (kept : a.Kept u) (same : u.disk = w.disk) :
      a.Swapped top (A := A) (w.disk.layer (a.base ++ [top])) (.error e) u := by
    refine ⟨kept, ?_, fun _ _ => .inl ?_, nofun⟩
    · rw [same, root]
      exact nofun
    · rw [same, stage.project]
  unfold commitProjectTree
  rw [named]
  generalize joinPath [a.projectsDir, a.name] = dst at leads parent dir_some
  have making := confined_mkdirTemp stage.kept dir_some (stage.kept.cwd ▸ parent) plain (.inr rfl)
  refine Site.called making fun kept => ?_
  cases answered : (handler (.mkdirTemp (dirPath dst) a.previous) w).1 with
  | error e => exact undone kept (mkdirTemp_error answered)
  | ok backup =>
    obtain ⟨n, rfl, _, free, made⟩ := mkdirTemp_ok answered
    obtain ⟨called, another⟩ := previous_name plain n
    have aside : place a.start.cwd (entryPath (dirPath dst) (a.previous ++ digits n)) = a.base ++ [a.previous ++ digits n] := by
      rw [place_entryPath dir_some called, parent]
    rw [stage.kept.cwd, aside] at free made
    have fresh := (stage.kept.fresh ⟨n, .inr rfl⟩ free).resolve_left another
    have named : ∃ m, a.previous ++ digits n = a.previous ++ digits m := ⟨n, rfl⟩
    generalize a.previous ++ digits n = back at another aside free made fresh named
    generalize entryPath (dirPath dst) back = backup at aside
    have apart : back ≠ top := by
      rintro rfl
      rw [root] at free
      cases free
    generalize (handler (.mkdirTemp (dirPath dst) a.previous) w).2 = u at kept made
    have asideU : place u.cwd backup = a.base ++ [back] := by rw [kept.cwd, aside]
    have back_dir : u.disk.node (a.base ++ [back]) = some .dir := by rw [made, if_pos rfl]
    have removing : a.Confined u (.remove backup) :=
      confined_entry (.inr fresh) (by rw [back_dir]; exact nofun) (fun loc reached => by rw [reached, asideU]) (fun _ => id)
        (by rw [← asideU]; rfl)
    refine Site.called removing fun kept => ?_
    have removed (loc : List Seg) (away : ¬ a.base ++ [back] <+: loc) : (handler (.remove backup) u).2.disk.node loc = w.disk.node loc := by
      have other : loc ≠ a.base ++ [back] := by
        rintro rfl
        exact away (List.prefix_refl _)
      rcases @answer_frame u.cwd u.turn (.remove backup) u.disk loc (fun reached => other (reached.trans asideU)) with same | ⟨wrong, _⟩
      · exact same.trans (by rw [made, if_neg other])
      · exact wrong.elim
    cases answered : (handler (.remove backup) u).1 with
    | error e =>
      refine ⟨kept, ?_, fun _ _ => .inl ?_, nofun⟩
      · rw [removed _ (by simpa using @siblings_apart a.base _ _ apart []), root]
        exact nofun
      · exact (entry_layer removed another).trans stage.project
    | ok _ =>
      have gone : (handler (.remove backup) u).2.disk.node (a.base ++ [back]) = none := by
        rw [remove_ok answered, if_pos asideU.symm]
      have waiting : a.Waiting top back (w.disk.layer (a.base ++ [top])) (handler (.remove backup) u).2 := by
        refine ⟨kept, stage.fresh, fresh, named, apart, stage.other, another, ?_, entry_layer removed apart, by rw [← node_layer, root]⟩
        rw [removed _ fun within => by simpa using within.length_le]
        exact stage.way _ (List.prefix_append _ _)
      have project : (handler (.remove backup) u).2.disk.layer a.project = a.start.disk.layer a.project :=
        (entry_layer removed another).trans stage.project
      generalize (handler (.remove backup) u).2 = v at kept gone waiting project
      exact putAside_safe waiting leads goes aside gone project old

end Swaps

/-! ### The whole upload -/

/-- What is carried over of the project: nothing that is special. -/
def Site.carried (a : Site) : Layer Seg Bytes :=
  if a.start.disk.node a.project = some .dir then (a.start.disk.layer a.project).regular else Layer.empty

section Uploads

variable {a : Site} {w : World} {top : Seg} {tree : Layer Seg Bytes} {staging : Chars} {A B : Type} {form : Form}

theorem Site.Stage.failed (stage : a.Stage top w) (e : Failure) : a.Swapped top (A := A) tree (.error e) w := by
  refine ⟨stage.kept, ?_, fun _ _ => .inl stage.project, nofun⟩
  rw [stage.way _ (List.prefix_refl _)]
  exact nofun

theorem Leaves.then {p : Act A} {k : A → Act B} {good : A → Layer Seg Bytes → Prop} (first : a.Leaves top p good w)
    (next : ∀ x u, a.Stage top u → good x (u.disk.layer (a.base ++ [top])) → (k x).Safe a.uploading (a.Swapped top tree) u) :
    (p.bind k).Safe a.uploading (a.Swapped top tree) w :=
  Prog.Safe.bind _ first (fun x u left => next x u left.1 (left.2 x rfl)) fun e _ left => left.1.failed e

theorem Site.Swapped.error {e e' : Failure} (swapped : a.Swapped top (A := A) tree (.error e) w) : a.Swapped top (A := B) tree (.error e') w :=
  ⟨swapped.kept, swapped.clear, fun _ _ => swapped.fails e rfl, nofun⟩

theorem swapped_answering {p : Act A} (response : Failure → Failure) (safe : p.Safe a.uploading (a.Swapped top tree) w) :
    (answering response p).Safe a.uploading (a.Swapped top tree) w := by
  have attempted : p.attempt.Safe a.uploading (Prog.returns (a.Swapped top tree)) w := Prog.Safe.attempt (p := p) safe
  refine Prog.Safe.andThen (a.Swapped top tree) attempted ?_
  rintro (e | x) u swapped
  · exact swapped.error
  · exact swapped

theorem stageOld_leaves {projDir : Chars} (stage : a.Stage top w) (some_ : projDir ≠ []) (target : staging ≠ [])
    (leads : place a.start.cwd projDir = a.project) (goes : place a.start.cwd staging = a.base ++ [top])
    (tree : a.start.disk.node a.project = none ∨ ProjectTree (a.start.disk.layer a.project))
    (blank : w.disk.layer (a.base ++ [top]) = Layer.empty) (looked : w.turn.fault = none) :
    a.Leaves top (stageOld projDir staging) (fun _ f => f = a.carried) w := by
  have looking : Below (a.base ++ [top]) w (.stat projDir) := below_still (fun _ => id) (fun _ => id) rfl nofun
  have same := stat_disk projDir w
  have there : w.disk.node (place w.cwd projDir) = a.start.disk.node a.project := by
    rw [stage.kept.cwd, leads, node_layer, stage.project, ← node_layer a.start]
  refine Leaves.call stage looking fun r answered staged => ?_
  rw [← same] at blank
  rcases tree with missing | tree
  · have carried : a.carried = Layer.empty := by
      rw [Site.carried, missing, if_neg nofun]
    rw [carried]
    cases r with
    | error e => exact Leaves.pure staged blank
    | ok kind =>
      obtain ⟨entry, found, _⟩ := stat_ok answered
      rw [there, missing] at found
      cases found
  · have is_dir : a.start.disk.node a.project = some .dir := by
      rw [node_layer a.start]
      exact tree.sound.root
    have carried : a.carried = (a.start.disk.layer a.project).regular := by rw [Site.carried, if_pos is_dir]
    have told := stat_answers looked (there.trans is_dir)
    obtain rfl : r = .ok .dir := answered.symm.trans told
    rw [carried]
    exact Leaves.answering _ (copyProjectTree_leaves staged some_ target leads goes tree blank)

theorem uploadStaged_safe (stage : a.Stage top w) (plain : Plain a.name) (some_ : a.projectsDir ≠ []) (target : staging ≠ [])
    (goes : place a.start.cwd staging = a.base ++ [top])
    (tree : a.start.disk.node a.project = none ∨ ProjectTree (a.start.disk.layer a.project))
    (blank : w.disk.layer (a.base ++ [top]) = Layer.empty) (looked : w.turn.fault = none) :
    (uploadStaged (joinPath [a.projectsDir, a.name]) staging form).Safe a.uploading
      (a.Swapped top (a.carried.overlay form.written)) w := by
  have single : ∀ seg ∈ [a.name], Plain seg := by simpa using plain
  have joined := joinPath_names some_ (List.cons_ne_nil _ _) single
  have leads := @place_joinPath _ a.start.cwd _ some_ (List.cons_ne_nil _ _) single
  rw [join_singleton] at joined leads
  have dir : joinPath [a.projectsDir, a.name] ≠ [] := by
    rw [joined]
    exact render_ne_nil ((elements_cleaned _).append single)
  have old : a.start.disk.node a.project = none ∨ a.start.disk.node a.project = some .dir := by
    refine tree.imp_right fun tree => ?_
    rw [node_layer a.start]
    exact tree.sound.root
  refine Leaves.then (stageOld_leaves stage dir target leads goes tree blank looked) fun _ u staged carried => ?_
  refine Leaves.then (receive_leaves staged target goes) fun written u received laid => ?_
  refine Leaves.then (dirStats_leaves received laid) fun stats u counted same => ?_
  show (ite _ _ _ : Act Nat).Safe _ _ u
  split
  · exact counted.failed _
  have committed := commitProjectTree_safe counted plain some_ goes old
  rw [same, carried] at committed
  refine Prog.Safe.bind _ (swapped_answering _ committed) (fun _ v swapped => ?_) fun _ _ swapped => swapped.error
  exact ⟨swapped.kept, swapped.clear, by rintro _ ⟨⟩, fun _ _ => swapped.succeeds _ rfl⟩

/-- Everything that an upload leaves behind when it ends. -/
structure Site.Ends (a : Site) (form : Option Form) (r : Except Failure Nat) (w : World) : Prop where
  fails : ∀ e, r = .error e → a.Survives w
  succeeds : ∀ n, r = .ok n → ∃ f, form = some f ∧ w.disk.layer a.project = a.carried.overlay f.written

/-- The staging directory when it has just been made. -/
theorem staging_made {path : Chars} (grown : a.start.disk.Grown) (plain : Plain a.name) (some_ : a.projectsDir ≠ []) (kept : a.Kept w)
    (dirs : ∀ loc, w.disk.node loc = if loc <+: a.base then some .dir else a.start.disk.node loc)
    (done : (handler (.mkdirTemp a.projectsDir a.staged) w).1 = .ok path) :
    ∃ n, path = entryPath a.projectsDir (a.staged ++ digits n) ∧
      place a.start.cwd (entryPath a.projectsDir (a.staged ++ digits n)) = a.base ++ [a.staged ++ digits n] ∧
      a.Stage (a.staged ++ digits n) (handler (.mkdirTemp a.projectsDir a.staged) w).2 ∧
      (handler (.mkdirTemp a.projectsDir a.staged) w).2.disk.layer (a.base ++ [a.staged ++ digits n]) = Layer.empty := by
  obtain ⟨n, rfl, _, free, made⟩ := mkdirTemp_ok done
  obtain ⟨called, other⟩ := staged_name plain n
  have goes : place a.start.cwd (entryPath a.projectsDir (a.staged ++ digits n)) = a.base ++ [a.staged ++ digits n] :=
    place_entryPath some_ called
  rw [kept.cwd, goes] at free made
  have fresh := (kept.fresh ⟨n, .inl rfl⟩ free).resolve_left other
  have making : a.Confined w (.mkdirTemp a.projectsDir a.staged) :=
    confined_mkdirTemp kept some_ (by rw [kept.cwd]; rfl) plain (.inl rfl)
  have after := kept.step making
  refine ⟨n, rfl, goes, ?_⟩
  generalize a.staged ++ digits n = top at other made fresh
  generalize (handler (.mkdirTemp a.projectsDir a.staged) w).2 = u at made after
  have long (names : List Seg) (x : Seg) : ¬ a.base ++ [x] ++ names <+: a.base := fun within => by
    have length := within.length_le
    simp at length
  have blank : u.disk.layer (a.base ++ [top]) = Layer.empty := by
    funext names
    have before := grown.empty fresh.2 names
    rw [Tree.layer] at before ⊢
    rw [made, dirs, if_neg (long names top), before, Layer.empty]
    simp
  refine ⟨⟨after, fresh, other, fun loc above => ?_, fun loc within found => ?_, ?_⟩, blank⟩
  · rw [made, dirs]
    rcases List.prefix_concat_iff.mp above with same | above
    · rw [if_pos same]
    · simp [above]
  · obtain ⟨names, rfl⟩ := within
    have there := congrFun blank names
    rw [Tree.layer, found, Layer.empty] at there
    split at there <;> cases there
  · funext names
    have apart : a.project ++ names ≠ a.base ++ [top] := by
      intro same
      have within : a.base ++ [top] <+: a.project ++ names := by rw [same]
      exact siblings_apart other names within
    have away : ¬ a.project ++ names <+: a.base := long names a.name
    rw [Tree.layer, made, if_neg apart, dirs, if_neg away]
    rfl

/-- The staging directory goes, whatever has become of the upload. -/
theorem removeStaging_safe {n : Nat} {path : Chars} {r : Except Failure Nat} (plain : Plain a.name)
    (goes : place a.start.cwd path = a.base ++ [a.staged ++ digits n]) (fresh : a.Fresh (a.staged ++ digits n))
    (swapped : a.Swapped (a.staged ++ digits n) (a.carried.overlay form.written) r w) :
    (do
      let _ ← call (.removeAll path)
      Prog.ofExcept r : Act Nat).Safe a.uploading (a.Ends (some form)) w := by
  have goesW : place w.cwd path = a.base ++ [a.staged ++ digits n] := by rw [swapped.kept.cwd, goes]
  have removing : a.Confined w (.removeAll path) :=
    confined_entry (.inr fresh) swapped.clear (fun loc reached => goesW ▸ reached) (fun _ => id) (by rw [← goesW]; rfl)
  refine Site.called removing fun kept => ?_
  have project := removeAll_layer goesW (staged_name plain n).2
  have ended : a.Ends (some form) r (handler (.removeAll path) w).2 := by
    refine ⟨fun e failed => ?_, fun m done => ⟨form, rfl, project.trans (swapped.succeeds m done)⟩⟩
    rcases swapped.fails e failed with same | ⟨twice, m, own, waits⟩
    · exact .inl (project.trans same)
    · have apart := staged_ne_previous a n m
      exact .inr ⟨twice, m, own, (removeAll_layer goesW apart).trans waits⟩
  cases r with
  | error e => exact ended
  | ok m => exact ended

theorem uploadProject_safe (a : Site) (form : Option Form) (grown : a.start.disk.Grown)
    (tree : a.start.disk.node a.project = none ∨ ProjectTree (a.start.disk.layer a.project)) (looked : a.faultAt 2 = none) :
    (uploadProject a.projectsDir a.name form).Safe a.uploading (a.Ends form) a.start := by
  have unmoved {e : Failure} {u : World} (same : u.disk.layer a.project = a.start.disk.layer a.project) : a.Ends form (.error e) u :=
    ⟨fun _ _ => .inl same, nofun⟩
  unfold uploadProject
  split
  · exact unmoved rfl
  rename_i some_
  split
  · exact unmoved rfl
  rename_i valid
  have plain : Plain a.name := plain_of_valid (by simpa using valid)
  cases form with
  | none => exact unmoved rfl
  | some form =>
    have away (names : List Seg) : ¬ a.project ++ names <+: a.base := fun within => by
      have length := within.length_le
      simp [Site.project] at length
    have ways : a.Confined a.start (.mkdirAll a.projectsDir) := by
      refine ⟨fun _ reached => reached.elim, fun _ made => .inr made, fun target member way within below => ?_⟩
      obtain rfl := List.mem_singleton.mp member
      exact absurd within below
    have named : ".upload-".toList ++ a.name ++ ['-'] = a.staged := rfl
    rw [named]
    refine Site.called ways fun kept => ?_
    have project := layer_left (w := a.start) (o := .mkdirAll a.projectsDir) (fun _ => id) away
    cases answered : (handler (.mkdirAll a.projectsDir) a.start).1 with
    | error e => exact unmoved project
    | ok _ =>
      have dirs := mkdirAll_ok answered
      have turns : (handler (.mkdirAll a.projectsDir) a.start).2.turns = a.start.turns.drop 1 := by rw [handler_turns, List.drop_one]
      generalize (handler (.mkdirAll a.projectsDir) a.start).2 = u at kept project dirs turns
      have making : a.Confined u (.mkdirTemp a.projectsDir a.staged) :=
        confined_mkdirTemp kept some_ (by rw [kept.cwd]; rfl) plain (.inl rfl)
      refine Site.called making fun kept' => ?_
      cases answered : (handler (.mkdirTemp a.projectsDir a.staged) u).1 with
      | error e => exact unmoved ((congrArg (fun t : Files.Disk => t.layer a.project) (mkdirTemp_error answered)).trans project)
      | ok staging =>
        obtain ⟨n, rfl, goes, stage, blank⟩ := staging_made grown plain some_ kept dirs answered
        have looking : (handler (.mkdirTemp a.projectsDir a.staged) u).2.turn.fault = none := by
          rw [World.turn, handler_turns, turns, List.tail_drop]
          exact looked
        have target : entryPath a.projectsDir (a.staged ++ digits n) ≠ [] := by
          unfold entryPath
          split <;> simp [some_]
        have staged := @uploadStaged_safe _ _ _ _ form stage plain some_ target goes tree blank looking
        have ending : ((uploadStaged (joinPath [a.projectsDir, a.name]) (entryPath a.projectsDir (a.staged ++ digits n)) form).attempt.bind
            fun r => do
              let _ ← call (.removeAll (entryPath a.projectsDir (a.staged ++ digits n)))
              Prog.ofExcept r).Safe a.uploading (a.Ends (some form)) (handler (.mkdirTemp a.projectsDir a.staged) u).2 :=
          Prog.Safe.andThen (a.Swapped (a.staged ++ digits n) (a.carried.overlay form.written))
            (Prog.Safe.attempt (p := uploadStaged _ _ form) staged)
            fun r v swapped => removeStaging_safe plain goes stage.fresh swapped
        exact ending

/-- At every point of an upload, whatever fails: nothing is changed but the project and the directories that the upload makes for
itself, and no link is followed. When it has failed the project survives, and when it has succeeded the project is what was
carried over of it with the uploaded files on top. -/
theorem upload_all_or_nothing (a : Site) (form : Option Form) (grown : a.start.disk.Grown)
    (dir : a.start.disk.node a.project = none ∨ a.start.disk.node a.project = some .dir)
    (named : ∀ names ∈ a.start.disk.below a.project, ∀ seg ∈ names, Plain seg ∧ '\\' ∉ seg) (looked : a.faultAt 2 = none)
    {rest : Act Nat} {t : World}
    (ran : Prog.Exec (Prog.sequential handler fun _ => True) (uploadProject a.projectsDir a.name form) a.start rest t) :
    (∀ loc, ¬ a.Owns loc → t.disk.node loc = a.start.disk.node loc ∨
        (loc <+: a.base ∧ a.start.disk.node loc = none ∧ t.disk.node loc = some .dir)) ∧
      (∀ o k, rest = .call o k → a.Confined t o) ∧ (∀ e, rest = .fail e → a.Survives t) ∧
      ∀ n, rest = .done n → ∃ f, form = some f ∧ t.disk.layer a.project = a.carried.overlay f.written := by
  have tree : a.start.disk.node a.project = none ∨ ProjectTree (a.start.disk.layer a.project) :=
    dir.imp_right fun is_dir => ⟨grown.sound is_dir, fun names found => named names (Tree.mem_below.mpr found)⟩
  have start : a.Kept a.start := ⟨rfl, ⟨0, rfl⟩, fun _ _ => .inl rfl⟩
  have own : Prog.Exec a.uploading (uploadProject a.projectsDir a.name form) a.start rest t :=
    ran.allow (fun _ _ same => same) fun _ _ _ _ stepped => stepped
  have ended := (uploadProject_safe a form grown tree looked).ends start (fun _ => rfl) (fun _ _ _ first second => first.trans second)
    (fun _ _ kept same => same ▸ kept) (fun o s r t kept may stepped => by cases stepped; exact kept.step may)
    (fun _ _ _ same holds => same ▸ holds) own
  obtain ⟨kept, safe⟩ := ended
  refine ⟨kept.others, ?_, ?_, ?_⟩
  · rintro o k rfl
    exact (safe t rfl kept).1
  · rintro e rfl
    exact safe.fails e rfl
  · rintro n rfl
    exact safe.succeeds n rfl

/-- A project with a file, a library and a link, on a server whose projects are in a directory below the working one. -/
def linkedSite : Site where
  start :=
    { disk := [([], .dir), (["srv".toList], .dir), (["srv".toList, "p".toList], .dir), (["srv".toList, "p".toList, "etl".toList], .dir),
        (["srv".toList, "p".toList, "etl".toList, "a.py".toList], .file [1, 2]),
        (["srv".toList, "p".toList, "etl".toList, "lib".toList], .dir),
        (["srv".toList, "p".toList, "etl".toList, "lib".toList, "b.py".toList], .file [3]),
        (["srv".toList, "p".toList, "etl".toList, "link".toList], .special)]
      cwd := ["srv".toList]
      turns := List.replicate 30 ⟨none, [7]⟩ }
  projectsDir := "./p".toList
  name := "etl".toList

def nestedForm : Form where
  files := [⟨"b.py".toList, 1, [9], none⟩]
  paths := ["lib\\.\\b.py".toList]
  filename := []
  content := []

theorem nested_upload : ((uploadProject linkedSite.projectsDir linkedSite.name (some nestedForm)).run handler linkedSite.start).2.disk.layer
    linkedSite.project = linkedSite.carried.overlay nestedForm.written := by
  have ran := Prog.exec_run handler (fun _ => True) (uploadProject linkedSite.projectsDir linkedSite.name (some nestedForm)) linkedSite.start
  have done : ((uploadProject linkedSite.projectsDir linkedSite.name (some nestedForm)).run handler linkedSite.start).1 = .ok 1 := by
    decide +kernel
  obtain ⟨_, _, _, succeeds⟩ := upload_all_or_nothing linkedSite (some nestedForm) (by decide +kernel) (.inr (by decide +kernel))
    (by decide +kernel) (by decide +kernel) ran
  obtain ⟨f, same, whole⟩ := succeeds 1 (by rw [done]; rfl)
  cases same
  exact whole

/-- The link is in the old tree and not among the uploads, and after the upload it is gone. -/
theorem link_not_carried :
    ((uploadProject linkedSite.projectsDir linkedSite.name (some nestedForm)).run handler linkedSite.start).1 = .ok 1 ∧
      (linkedSite.start.disk.layer linkedSite.project).overlay nestedForm.written ["link".toList] = some .special ∧
      ((uploadProject linkedSite.projectsDir linkedSite.name (some nestedForm)).run handler linkedSite.start).2.disk.layer linkedSite.project
        ["link".toList] = none := by
  decide +kernel

end Uploads

end Cronova.Api.Projects
