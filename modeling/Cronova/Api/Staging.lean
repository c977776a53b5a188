import Cronova.Api.Projects

/-! What an upload does in its staging directory: the copy of the project and the files on top of it.

Every name passes through `cleanRelPath`, so a file goes to plain names below the directory. The
directory is new, and nothing in it is a link, so no path leaves it.
-/

set_option autoImplicit false

namespace Cronova.Api.Projects

open Process Files
open Http (segments join segments_join join_singleton)

/-- One upload, as it begins. -/
structure Site where
  start : World
  projectsDir : Chars
  name : Chars

namespace Site

variable (a : Site)

def base : List Seg := place a.start.cwd a.projectsDir

def project : List Seg := a.base ++ [a.name]

/-- The start of the name of the staging directory. -/
def staged : Seg := ".upload-".toList ++ a.name ++ ['-']

/-- The start of the name of the directory where the old tree waits. -/
def previous : Seg := ".previous-".toList ++ a.name ++ ['-']

/-- The name of a directory that the upload makes for itself, where nothing was. -/
def Fresh (top : Seg) : Prop :=
  (∃ n, top = a.staged ++ digits n ∨ top = a.previous ++ digits n) ∧ a.start.disk.node (a.base ++ [top]) = none

/-- The project, and the directories that the upload makes for itself. -/
def Owns (loc : List Seg) : Prop := ∃ top rest, (top = a.name ∨ a.Fresh top) ∧ loc = a.base ++ top :: rest

/-- Everything else is as it was, but that the directories on the way to the projects may have been made. -/
structure Kept (w : World) : Prop where
  cwd : w.cwd = a.start.cwd
  turns : ∃ i, w.turns = a.start.turns.drop i
  others : ∀ loc, ¬ a.Owns loc → w.disk.node loc = a.start.disk.node loc ∨
    (loc <+: a.base ∧ a.start.disk.node loc = none ∧ w.disk.node loc = some .dir)

/-- A call that changes what the upload owns only, and goes there through no link. -/
structure Confined (w : World) (o : Op) : Prop where
  reach : ∀ loc, o.Reaches w.cwd w.disk loc → a.Owns loc
  makes : ∀ loc, o.Makes w.cwd loc → a.Owns loc ∨ loc <+: a.base
  direct : ∀ target ∈ o.targets w.cwd, ∀ way, way <+: target → ¬ way <+: a.base → w.disk.node way ≠ some .special

/-- The contract of the upload, which has the projects to itself while it runs. -/
def uploading : Contract os World where
  step o s r t := handler o s = (r, t)
  inv := a.Kept
  rely := Eq
  may o s := a.Confined s o

variable {a} {w : World} {o : Op} {top : Seg} {loc : List Seg}

theorem owns_below (own : top = a.name ∨ a.Fresh top) (within : a.base ++ [top] <+: loc) : a.Owns loc := by
  obtain ⟨rest, rfl⟩ := within
  exact ⟨top, rest, own, by simp⟩

theorem Kept.step (kept : a.Kept w) (confined : a.Confined w o) : a.Kept (handler o w).2 where
  cwd := kept.cwd
  turns := by
    obtain ⟨i, turns⟩ := kept.turns
    exact ⟨i + 1, by rw [handler_turns, turns, List.tail_drop]⟩
  others := by
    intro loc other
    rcases answer_frame w.cwd w.turn o w.disk fun reached => other (confined.reach loc reached) with same | ⟨makes, free, made⟩
    · rcases kept.others loc other with before | ⟨above, free, dir⟩
      · exact .inl (same.trans before)
      · exact .inr ⟨above, free, same.trans dir⟩
    · have above := (confined.makes loc makes).resolve_left other
      rcases kept.others loc other with before | ⟨_, _, dir⟩
      · exact .inr ⟨above, before.symm.trans free, made⟩
      · rw [free] at dir
        cases dir

theorem called {A : Type} {k : o.Reply → Act A} {post : Except Failure A → World → Prop} (confined : a.Confined w o)
    (next : a.Kept (handler o w).2 → (k (handler o w).1).Safe a.uploading post (handler o w).2) :
    (Prog.call (I := os) o k).Safe a.uploading post w := by
  rintro s rfl _
  refine ⟨confined, fun r t stepped kept => ?_⟩
  cases stepped
  exact next kept

/-- What no call changes is not spoilt by one. -/
theorem confined_still (reach : ∀ loc, ¬ o.Reaches w.cwd w.disk loc) (makes : ∀ loc, ¬ o.Makes w.cwd loc)
    (targets : o.targets w.cwd = []) : a.Confined w o where
  reach loc reached := absurd reached (reach loc)
  makes loc made := absurd made (makes loc)
  direct target member := by
    rw [targets] at member
    cases member

end Site

/-! ### The staging directory -/

/-- The project is still as it was, and beside it is a directory with directories and regular files only. -/
structure Site.Stage (a : Site) (top : Seg) (w : World) : Prop where
  kept : a.Kept w
  fresh : a.Fresh top
  other : top ≠ a.name
  way : ∀ loc, loc <+: a.base ++ [top] → w.disk.node loc = some .dir
  clear : ∀ loc, a.base ++ [top] <+: loc → w.disk.node loc ≠ some .special
  project : w.disk.layer a.project = a.start.disk.layer a.project

/-- A call that works below a directory. -/
structure Below (root : List Seg) (w : World) (o : Op) : Prop where
  reach : ∀ loc, o.Reaches w.cwd w.disk loc → root <+: loc ∧ loc ≠ root
  makes : ∀ loc, o.Makes w.cwd loc → loc <+: root ∨ root <+: loc
  targets : ∀ target ∈ o.targets w.cwd, root <+: target
  still : ∀ old new, o ≠ .rename old new

section Stages

variable {a : Site} {top : Seg} {w : World} {o : Op} {A B : Type} {root names : List Seg} {path : Chars}

theorem below_mkdirAll (leads : place w.cwd path = root ++ names) : Below root w (.mkdirAll path) where
  reach _ reached := reached.elim
  makes loc made := by
    have within : loc <+: root ++ names := leads ▸ made
    exact List.prefix_or_prefix_of_prefix within (List.prefix_append root names)
  targets target member := by
    rw [List.mem_singleton.mp member, leads]
    exact List.prefix_append root names
  still := nofun

theorem strictly (some_ : names ≠ []) : root <+: root ++ names ∧ root ++ names ≠ root :=
  ⟨List.prefix_append root names, by simpa using some_⟩

/-- A call that writes to one place below the directory. -/
theorem below_at (some_ : names ≠ []) (reach : ∀ loc, o.Reaches w.cwd w.disk loc → loc = root ++ names)
    (makes : ∀ loc, ¬ o.Makes w.cwd loc) (targets : o.targets w.cwd = [root ++ names]) (still : ∀ old new, o ≠ .rename old new) :
    Below root w o where
  reach loc reached := reach loc reached ▸ strictly some_
  makes loc made := absurd made (makes loc)
  targets target member := by
    rw [targets] at member
    exact List.mem_singleton.mp member ▸ List.prefix_append root names
  still := still

theorem below_still (reach : ∀ loc, ¬ o.Reaches w.cwd w.disk loc) (makes : ∀ loc, ¬ o.Makes w.cwd loc)
    (targets : o.targets w.cwd = []) (still : ∀ old new, o ≠ .rename old new) : Below root w o where
  reach loc reached := absurd reached (reach loc)
  makes loc made := absurd made (makes loc)
  targets target member := by
    rw [targets] at member
    cases member
  still := still

/-- The directory and the project are not on the way to each other. -/
theorem Site.Stage.apart (stage : a.Stage top w) (names : List Seg) : ¬ a.base ++ [top] <+: a.project ++ names := by
  rintro ⟨rest, same⟩
  rw [Site.project, List.append_assoc, List.append_assoc] at same
  have heads := List.append_cancel_left same
  exact stage.other (List.cons.inj heads).1

theorem Site.Stage.confined (stage : a.Stage top w) (below : Below (a.base ++ [top]) w o) : a.Confined w o where
  reach loc reached := Site.owns_below (.inr stage.fresh) (below.reach loc reached).1
  makes loc made := by
    rcases below.makes loc made with above | within
    · rcases List.prefix_concat_iff.mp above with same | above
      · exact .inl (Site.owns_below (.inr stage.fresh) (same ▸ List.prefix_refl _))
      · exact .inr above
    · exact .inl (Site.owns_below (.inr stage.fresh) within)
  direct target member way within _ := by
    rcases List.prefix_or_prefix_of_prefix within (below.targets target member) with above | deeper
    · rw [stage.way way above]
      exact nofun
    · exact stage.clear way deeper

/-- The step lemma. -/
theorem Site.Stage.step (stage : a.Stage top w) (below : Below (a.base ++ [top]) w o) : a.Stage top (handler o w).2 where
  kept := stage.kept.step (stage.confined below)
  fresh := stage.fresh
  other := stage.other
  way := by
    intro loc above
    have away : ¬ o.Reaches w.cwd w.disk loc := by
      intro reached
      obtain ⟨within, other⟩ := below.reach loc reached
      exact other (above.eq_of_length (Nat.le_antisymm above.length_le within.length_le))
    rcases answer_frame w.cwd w.turn o w.disk away with same | ⟨_, _, made⟩
    · exact same.trans (stage.way loc above)
    · exact made
  clear loc within found := stage.clear loc within (answer_special _ _ below.still _ found)
  project := by
    refine Eq.trans ?_ stage.project
    funext names
    have away : ¬ o.Reaches w.cwd w.disk (a.project ++ names) := fun reached => stage.apart names (below.reach _ reached).1
    rcases answer_frame w.cwd w.turn o w.disk away with same | ⟨makes, free, _⟩
    · exact same
    · -- a directory is made on the way to the staging directory, where there are directories already
      rcases below.makes _ makes with above | within
      · rw [stage.way _ above] at free
        cases free
      · exact absurd within (stage.apart names)

/-- The program works in the staging directory, and if it returns then with the directory as described. -/
def Site.Leaves (a : Site) (top : Seg) (p : Act A) (good : A → Layer Seg Bytes → Prop) (w : World) : Prop :=
  p.Safe a.uploading (fun r u => a.Stage top u ∧ ∀ x, r = .ok x → good x (u.disk.layer (a.base ++ [top]))) w

namespace Leaves

variable {p : Act A} {k : A → Act B} {good : A → Layer Seg Bytes → Prop} {fine : B → Layer Seg Bytes → Prop}

theorem pure {x : A} (stage : a.Stage top w) (holds : good x (w.disk.layer (a.base ++ [top]))) : a.Leaves top (.done x) good w := by
  refine ⟨stage, ?_⟩
  rintro _ ⟨⟩
  exact holds

theorem fail {e : Failure} (stage : a.Stage top w) : a.Leaves top (.fail e) good w := ⟨stage, nofun⟩

theorem bind (first : a.Leaves top p good w)
    (next : ∀ x u, a.Stage top u → good x (u.disk.layer (a.base ++ [top])) → a.Leaves top (k x) fine u) :
    a.Leaves top (p.bind k) fine w :=
  Prog.Safe.bind _ first (fun x u left => next x u left.1 (left.2 x rfl)) fun _ _ left => ⟨left.1, nofun⟩

theorem mono {other : A → Layer Seg Bytes → Prop} (leaves : a.Leaves top p good w) (implies : ∀ x f, good x f → other x f) :
    a.Leaves top p other w :=
  Prog.Safe.mono leaves fun _ _ left => ⟨left.1, fun x same => implies _ _ (left.2 x same)⟩

theorem call {k : o.Reply → Act B} (stage : a.Stage top w) (below : Below (a.base ++ [top]) w o)
    (next : ∀ r, (handler o w).1 = r → a.Stage top (handler o w).2 → a.Leaves top (k r) fine (handler o w).2) :
    a.Leaves top (.call o k) fine w :=
  Site.called (stage.confined below) fun _ => next _ rfl (stage.step below)

theorem answering (response : Failure → Failure) (leaves : a.Leaves top p good w) : a.Leaves top (answering response p) good w := by
  let mid (r : Except Failure A) (u : World) : Prop := a.Stage top u ∧ ∀ x, r = .ok x → good x (u.disk.layer (a.base ++ [top]))
  have attempted : p.attempt.Safe a.uploading (Prog.returns mid) w := Prog.Safe.attempt (p := p) leaves
  refine Prog.Safe.andThen mid attempted ?_
  rintro (e | x) u ⟨stage, holds⟩
  · exact Leaves.fail stage
  · exact Leaves.pure stage (holds x rfl)

theorem ofReply {r : Except OsErr A} (stage : a.Stage top w) (holds : ∀ x, r = .ok x → good x (w.disk.layer (a.base ++ [top]))) :
    a.Leaves top (ofReply r) good w := by
  cases r with
  | error e => exact Leaves.fail stage
  | ok x => exact Leaves.pure stage (holds x rfl)

/-- A loop, by what each of its rounds asks of its item and does to the directory. -/
theorem fold {body : A → B → Act A} (round : B → Layer Seg Bytes → Layer Seg Bytes) (fits : B → Prop) (items : List B)
    (rounds : ∀ b ∈ items, ∀ x u, a.Stage top u →
      a.Leaves top (body x b) (fun _ f => fits b ∧ f = round b (u.disk.layer (a.base ++ [top]))) u)
    (x : A) (stage : a.Stage top w) :
    a.Leaves top (Prog.fold body items x)
      (fun _ f => (∀ b ∈ items, fits b) ∧ f = items.foldl (fun f b => round b f) (w.disk.layer (a.base ++ [top]))) w := by
  induction items generalizing x w with
  | nil => exact Leaves.pure stage ⟨nofun, rfl⟩
  | cons b rest ih =>
    refine Leaves.bind (rounds b (.head _) x w stage) fun y u later left => ?_
    refine Leaves.mono (ih (fun b member => rounds b (.tail _ member)) y later) fun _ f onward => ?_
    rw [left.2] at onward
    exact ⟨List.forall_mem_cons.mpr ⟨left.1, onward.1⟩, onward.2⟩

end Leaves

/-! ### One file -/

theorem elements_slashed_ok {name rel : Chars} (accepted : cleanRelPath name = .ok rel) :
    rel = join (elements (slashed name)) ∧ elements (slashed name) ≠ [] ∧ ∀ seg ∈ elements (slashed name), Plain seg := by
  unfold cleanRelPath at accepted
  dsimp only at accepted
  split at accepted
  · cases accepted
  · rename_i some_
    split at accepted
    · cases accepted
    · rename_i inside
      obtain ⟨notDot, notUp, notAbove⟩ : clean (slashed name) ≠ dot ∧ clean (slashed name) ≠ up ∧
          ¬ "../".toList.isPrefixOf (clean (slashed name)) = true := by
        simpa only [not_or] using inside
      have relative : isAbs (slashed name) = false := by
        cases rooted : isAbs (slashed name) with
        | false => rfl
        | true => exact absurd (.inr rooted) some_
      have cleaned := elements_cleaned (slashed name)
      rw [clean, relative] at notDot notUp notAbove
      have nonempty : elements (slashed name) ≠ [] := by
        intro none_
        rw [none_] at notDot
        exact notDot rfl
      have text : render false (elements (slashed name)) = join (elements (slashed name)) := by
        rw [render, if_neg Bool.false_ne_true, if_neg nonempty]
      rw [text] at notUp notAbove
      refine ⟨?_, nonempty, cleaned.plain fun climbs => ?_⟩
      · rw [← text, ← relative]
        exact (Except.ok.inj accepted).symm
      · obtain ⟨rest, shape⟩ : ∃ rest, elements (slashed name) = up :: rest := List.head?_eq_some_iff.mp climbs
        rw [shape] at notUp notAbove
        cases rest with
        | nil => exact notUp (join_singleton up)
        | cons next rest =>
          rw [Http.join_cons_cons] at notAbove
          exact notAbove (List.isPrefixOf_iff_prefix.mpr ⟨_, rfl⟩)

theorem mkdirAll_leaves (stage : a.Stage top w) (leads : place w.cwd path = a.base ++ [top] ++ names) :
    a.Leaves top (mkdirAll path) (fun _ f => f = (w.disk.layer (a.base ++ [top])).mkdirs names) w := by
  refine Leaves.call stage (below_mkdirAll leads) fun r answered staged => ?_
  refine Leaves.ofReply staged fun _ done => ?_
  funext loc
  have made := mkdirAll_ok (answered.trans done) (a.base ++ [top] ++ loc)
  rw [leads] at made
  simpa only [Tree.layer, Layer.mkdirs, List.prefix_append_right_inj] using made

theorem remove_leaves {fine : B → Layer Seg Bytes → Prop} {e : Failure} (stage : a.Stage top w)
    (leads : place w.cwd path = a.base ++ [top] ++ names) (some_ : names ≠ []) :
    a.Leaves top (do let _ ← call (.remove path); .fail e) fine w := by
  have below : Below (a.base ++ [top]) w (.remove path) :=
    below_at some_ (fun loc reached => leads ▸ reached) (fun _ => id) (by rw [← leads]; rfl) nofun
  exact Leaves.call stage below fun _ _ staged => Leaves.fail staged

/-- A file goes to its place below the directory, or nothing is said of the directory. -/
theorem writeProjectFile_leaves {staging name : Chars} {src : Source} {content : Bytes} (stage : a.Stage top w) (some_ : staging ≠ [])
    (leads : place a.start.cwd staging = a.base ++ [top]) (reads : ∀ u, a.Stage top u → held u.disk u.cwd src = content) :
    a.Leaves top (writeProjectFile staging name src)
      (fun _ f => f = (w.disk.layer (a.base ++ [top])).lay (elements (slashed name), content)) w := by
  unfold writeProjectFile
  cases accepted : cleanRelPath name with
  | error e => exact Leaves.fail stage
  | ok rel =>
    obtain ⟨rfl, nonempty, plain⟩ := elements_slashed_ok accepted
    generalize elements (slashed name) = names at nonempty plain
    obtain ⟨parents, last, rfl⟩ : ∃ parents last, names = parents ++ [last] := by
      obtain ⟨parents, last, shape⟩ := (List.eq_nil_or_concat names).resolve_left nonempty
      exact ⟨parents, last, by simpa using shape⟩
    have early : ∀ seg ∈ parents, Plain seg := fun seg member => plain seg (List.mem_append_left _ member)
    have final : Plain last := plain last (by simp)
    have goes (cwd : List Seg) (same : cwd = a.start.cwd) :
        place cwd (joinPath [staging, join (parents ++ [last])]) = a.base ++ [top] ++ (parents ++ [last]) := by
      rw [place_joinPath some_ nonempty plain, same, leads]
    have parent (cwd : List Seg) (same : cwd = a.start.cwd) :
        place cwd (dirPath (joinPath [staging, join (parents ++ [last])])) = a.base ++ [top] ++ parents := by
      rw [place_dirPath some_ early final, same, leads]
    show a.Leaves top (ite _ _ _) _ w
    split
    · exact Leaves.fail stage
    refine Leaves.bind (mkdirAll_leaves stage (parent _ stage.kept.cwd)) fun _ u made ways => ?_
    have goesU := goes u.cwd made.kept.cwd
    have creating : Below (a.base ++ [top]) u (.create (joinPath [staging, join (parents ++ [last])])) :=
      below_at nonempty (fun loc reached => goesU ▸ reached) (fun _ => id) (by rw [← goesU]; rfl) nofun
    refine Leaves.call made creating fun r answered opened => ?_
    cases r with
    | error e => exact Leaves.fail opened
    | ok _ =>
      have fresh := create_ok answered
      generalize (handler (.create (joinPath [staging, join (parents ++ [last])])) u).2 = v at opened fresh
      have goesV := goes v.cwd opened.kept.cwd
      have copying : Below (a.base ++ [top]) v (.copy (joinPath [staging, join (parents ++ [last])]) src (maxProjectFileSize + 1)) :=
        below_at nonempty (fun loc reached => goesV ▸ reached) (fun _ => id) (by rw [← goesV]; rfl) nofun
      refine Leaves.call opened copying fun r answered copied => ?_
      cases r with
      | error e => exact remove_leaves copied (goes _ copied.kept.cwd) nonempty
      | ok n =>
        obtain ⟨counted, written⟩ := copy_ok answered
        rw [reads v opened] at counted written
        show a.Leaves top (ite _ _ _) _ _
        split
        · exact remove_leaves copied (goes _ copied.kept.cwd) nonempty
        rename_i small
        refine Leaves.pure copied (funext fun loc => ?_)
        have short : content.length ≤ maxProjectFileSize := by
          rw [List.length_take] at counted
          omega
        rw [List.take_of_length_le (by omega), goesV] at written
        rw [goesU] at fresh
        have before : (u.disk.layer (a.base ++ [top])) loc = Layer.mkdirs _ parents loc := congrFun ways loc
        unfold Tree.layer at before ⊢
        rw [written, fresh]
        by_cases here : loc = parents ++ [last]
        · rw [if_pos (by rw [here]), Layer.lay, if_pos here]
        · have other : a.base ++ [top] ++ loc ≠ a.base ++ [top] ++ (parents ++ [last]) := fun same => here (List.append_cancel_left same)
          rw [if_neg other, if_neg other, before, Layer.lay, if_neg here, Layer.mkdirs]
          simp only [List.prefix_concat_iff, here, false_or]

/-! ### The copy of the project -/

/-- A project as a directory of a file system is, but for names with a backslash in them. -/
structure ProjectTree (f : Layer Seg Bytes) : Prop where
  sound : f.Sound
  plain : ∀ names, f names ≠ none → ∀ seg ∈ names, Plain seg ∧ '\\' ∉ seg

theorem walkedPath_leads {src : Chars} (some_ : src ≠ []) (plain : ∀ seg ∈ names, Plain seg) :
    Leads src names (walkedPath src names) ∧ walkedPath src names ≠ [] := by
  induction names using List.reverseRecOn with
  | nil => exact ⟨leads_self src, some_⟩
  | append_singleton names name ih =>
    obtain ⟨leads, path⟩ := ih fun seg member => plain seg (List.mem_append_left _ member)
    rw [walkedPath, List.foldl_append]
    exact leads.next path (plain name (by simp))

theorem place_joinPath_render {dir : Chars} {cwd : List Seg} (some_ : dir ≠ []) (plain : ∀ seg ∈ names, Plain seg) :
    place cwd (joinPath [dir, render false names]) = place cwd dir ++ names := by
  cases names with
  | nil => simpa [render] using place_joinPath_dot some_
  | cons name names =>
    rw [render, if_neg Bool.false_ne_true, if_neg (List.cons_ne_nil _ _)]
    exact place_joinPath some_ (List.cons_ne_nil _ _) plain

theorem elements_slashed_join (some_ : names ≠ []) (plain : ∀ seg ∈ names, Plain seg) (free : ∀ seg ∈ names, '\\' ∉ seg) :
    elements (slashed (join names)) = names := by
  have same : slashed (join names) = join names := by
    have marks : '\\' ∉ join names := by
      intro listed
      obtain ⟨seg, member, within⟩ : ∃ seg ∈ names, '\\' ∈ seg := by
        clear some_ plain free
        induction names with
        | nil => simp [join, List.intercalate] at listed
        | cons seg names ih =>
          cases names with
          | nil => exact ⟨seg, .head _, by simpa using listed⟩
          | cons next names =>
            rw [Http.join_cons_cons, List.mem_append, List.mem_cons] at listed
            rcases listed with here | wrong | later
            · exact ⟨seg, .head _, here⟩
            · cases wrong
            · obtain ⟨other, member, within⟩ := ih later
              exact ⟨other, .tail _ member, within⟩
      exact free seg member within
    unfold slashed
    conv => rhs; rw [← List.map_id (join names)]
    apply List.map_congr_left
    intro c member
    have other : c ≠ '\\' := fun wrong => marks (wrong ▸ member)
    rw [if_neg other]
    rfl
  have cleaned : Cleaned false names := ⟨0, names, rfl, by rintro ⟨⟩, plain⟩
  have text : render false names = join names := by rw [render, if_neg Bool.false_ne_true, if_neg some_]
  rw [same, ← text]
  exact elements_render cleaned

/-- What is copied for one entry. -/
theorem copyEntry_leaves {src dst : Chars} {kind : Kind} {entry : Node Bytes} (stage : a.Stage top w) (some_ : src ≠ []) (target : dst ≠ [])
    (leads : place a.start.cwd src = a.project) (goes : place a.start.cwd dst = a.base ++ [top])
    (tree : ProjectTree (a.start.disk.layer a.project)) (found : a.start.disk.layer a.project names = some entry)
    (same : entry.kind = kind) :
    a.Leaves top (copyEntry src dst (.entry names kind))
      (fun _ f => f = Layer.copied (a.start.disk.layer a.project) (w.disk.layer (a.base ++ [top])) names) w := by
  have named := tree.plain names (by rw [found]; exact Option.some_ne_none _)
  have plain : ∀ seg ∈ names, Plain seg := fun seg member => (named seg member).1
  have path := (walkedPath_leads some_ plain).1
  unfold copyEntry
  simp only [path.rel]
  rw [Layer.copied, found]
  subst same
  cases entry with
  | dir =>
    have way : place w.cwd (joinPath [dst, render false names]) = a.base ++ [top] ++ names := by
      rw [place_joinPath_render target plain, stage.kept.cwd, goes]
    exact mkdirAll_leaves stage way
  | special => exact Leaves.pure stage rfl
  | file content =>
    have some' : names ≠ [] := by
      rintro rfl
      rw [tree.sound.root] at found
      cases found
    have text : render false names = join names := by rw [render, if_neg Bool.false_ne_true, if_neg some']
    have reads (u : World) (later : a.Stage top u) : held u.disk u.cwd (.opened (walkedPath src names)) = content := by
      have there : u.disk.node (place u.cwd (walkedPath src names)) = some (.file content) := by
        rw [path.place plain, later.kept.cwd, leads]
        exact (congrFun later.project names).trans found
      rw [held, there]
    have opening : Below (a.base ++ [top]) w (.openFile (walkedPath src names)) := below_still (fun _ => id) (fun _ => id) rfl (by rintro _ _ ⟨⟩)
    refine Leaves.call stage opening fun r _ opened => ?_
    refine Leaves.bind (@Leaves.ofReply _ _ _ _ (fun _ f => f = w.disk.layer (a.base ++ [top])) _ opened fun _ _ => ?_) fun _ u later still => ?_
    · rw [openFile_disk]
    · have written := @writeProjectFile_leaves _ _ _ _ (render false names) _ _ later target goes reads
      rw [text, elements_slashed_join some' plain fun seg member => (named seg member).2, still] at written
      exact text ▸ written

/-- The copy that is made is the whole tree, but for what is special. -/
theorem copyProjectTree_leaves {src dst : Chars} (stage : a.Stage top w) (some_ : src ≠ []) (target : dst ≠ [])
    (leads : place a.start.cwd src = a.project) (goes : place a.start.cwd dst = a.base ++ [top])
    (tree : ProjectTree (a.start.disk.layer a.project)) (blank : w.disk.layer (a.base ++ [top]) = Layer.empty) :
    a.Leaves top (copyProjectTree src dst) (fun _ f => f = (a.start.disk.layer a.project).regular) w := by
  have walking : Below (a.base ++ [top]) w (.walkDir src) := below_still (fun _ => id) (fun _ => id) rfl nofun
  refine Leaves.call stage walking fun seen answered staged => ?_
  obtain ⟨unread, whole⟩ : ∃ unread, seen = visits (walked w.disk a.project) unread := by
    rw [← answered, ← leads, ← stage.kept.cwd]
    exact ⟨_, rfl⟩
  have known {names : List Seg} {kind : Kind} : (names, kind) ∈ walked w.disk a.project ↔
      ∃ entry, a.start.disk.layer a.project names = some entry ∧ entry.kind = kind := by
    rw [mem_walked, stage.project]
  have same : (handler (.walkDir src) w).2.disk = w.disk := rfl
  generalize (handler (.walkDir src) w).2 = u at staged same
  have looped : a.Leaves top (Prog.fold (fun _ => copyEntry src dst) seen ())
      (fun _ f => (∀ v ∈ seen, v.names?.isSome) ∧
        f = seen.foldl (fun f v => v.names?.elim f (Layer.copied (a.start.disk.layer a.project) f)) (u.disk.layer (a.base ++ [top]))) u :=
    Leaves.fold (fun v f => v.names?.elim f (Layer.copied (a.start.disk.layer a.project) f)) (fun v => v.names?.isSome) seen
      (fun v member _ _ later => by
        cases v with
        | broken names e => exact Leaves.fail later
        | entry names kind =>
          obtain ⟨entry, found, same⟩ := known.mp (entry_of_visit (whole ▸ member))
          exact Leaves.mono (copyEntry_leaves later some_ target leads goes tree found same) fun _ _ copied => ⟨rfl, copied⟩) () staged
  refine Leaves.mono looped fun _ f ended => ?_
  obtain ⟨unbroken, rfl⟩ := ended
  have listed : seen.foldl (fun f v => v.names?.elim f (Layer.copied (a.start.disk.layer a.project) f)) Layer.empty =
      (seen.filterMap Visit.names?).foldl (Layer.copied (a.start.disk.layer a.project)) Layer.empty := by
    rw [List.foldl_filterMap]
    congr 1
    funext f v
    cases v <;> rfl
  rw [same, blank, listed]
  apply tree.sound.copy
  intro names found
  obtain ⟨entry, there⟩ := Option.ne_none_iff_exists'.mp found
  have visited := visit_of_entry (fun names e member => nomatch unbroken (.broken names e) (whole ▸ member)) (known.mpr ⟨entry, there, rfl⟩)
  exact List.mem_filterMap.mpr ⟨_, whole ▸ visited, rfl⟩

/-! ### The uploaded files -/

theorem given_held {content : Bytes} (t : Files.Disk) (cwd : List Seg) : held t cwd (.given content) = content := rfl

theorem openPart_leaves {f : Layer Seg Bytes} (stage : a.Stage top w) (same : w.disk.layer (a.base ++ [top]) = f) :
    a.Leaves top openPart (fun _ g => g = f) w := by
  have opening : Below (a.base ++ [top]) w .openPart := below_still (fun _ => id) (fun _ => id) rfl nofun
  refine Leaves.call stage opening fun r _ opened => ?_
  exact Leaves.ofReply opened fun _ _ => same

section Received

variable {staging : Chars} {form : Form}

/-- A part or an entry of an archive is opened and written. -/
theorem writePart_leaves {name : Chars} {content : Bytes} (n : Nat) (stage : a.Stage top w) (some_ : staging ≠ [])
    (goes : place a.start.cwd staging = a.base ++ [top]) :
    a.Leaves top (do
        openPart
        writeProjectFile staging name (.given content)
        pure (n + 1))
      (fun _ f => True ∧ f = (w.disk.layer (a.base ++ [top])).lay (elements (slashed name), content)) w := by
  refine Leaves.bind (openPart_leaves stage rfl) fun _ u opened same => ?_
  refine Leaves.bind (writeProjectFile_leaves opened some_ goes fun _ _ => given_held _ _) fun _ v written laid => ?_
  refine Leaves.pure written ⟨trivial, ?_⟩
  rw [laid, same]

theorem writeParts_leaves (stage : a.Stage top w) (some_ : staging ≠ []) (goes : place a.start.cwd staging = a.base ++ [top]) :
    a.Leaves top (writeParts staging form)
      (fun _ f => f = (w.disk.layer (a.base ++ [top])).overlay
        (form.files.zipIdx.map fun part => (elements (slashed (form.partPath part)), part.1.content))) w := by
  refine Leaves.mono (Leaves.fold (fun part f => f.lay (elements (slashed (form.partPath part)), part.1.content)) (fun _ => True)
    form.files.zipIdx (fun part _ n u later => ?_) 0 stage) fun _ f ended => ?_
  · split
    · exact Leaves.fail later
    · exact writePart_leaves n later some_ goes
  · rw [ended.2, Layer.overlay, List.foldl_map]

theorem extractZipUpload_leaves {fh : Part} (stage : a.Stage top w) (some_ : staging ≠ []) (goes : place a.start.cwd staging = a.base ++ [top]) :
    a.Leaves top (extractZipUpload staging fh)
      (fun _ f => f = (w.disk.layer (a.base ++ [top])).overlay
        (((fh.archive.getD []).filter fun e => !e.isDir && e.regular).map fun e => (elements (slashed e.name), e.content))) w := by
  refine Leaves.bind (openPart_leaves stage rfl) fun _ u opened same => ?_
  cases fh.archive with
  | none => exact Leaves.fail opened
  | some entries =>
    dsimp only
    cases declaredSize entries 0 with
    | error e => exact Leaves.fail opened
    | ok total =>
      show a.Leaves top (ite _ _ _) _ u
      split
      · exact Leaves.fail opened
      have way : place u.cwd staging = a.base ++ [top] ++ [] := by rw [opened.kept.cwd, goes, List.append_nil]
      refine Leaves.bind (mkdirAll_leaves opened way) fun _ v made ways => ?_
      have root : v.disk.layer (a.base ++ [top]) = w.disk.layer (a.base ++ [top]) := by
        rw [ways, ← same]
        funext loc
        rw [Layer.mkdirs]
        split
        · rename_i first
          obtain rfl := List.prefix_nil.mp first
          rw [Tree.layer, List.append_nil, opened.way _ (List.prefix_refl _)]
        · rfl
      rw [← root]
      let round (e : ZipEntry) (f : Layer Seg Bytes) : Layer Seg Bytes :=
        if !e.isDir && e.regular then f.lay (elements (slashed e.name), e.content) else f
      refine Leaves.mono (Leaves.fold round (fun _ => True) entries (fun e _ n x later => ?_) 0 made) fun _ f ended => ?_
      · dsimp only [round]
        cases e.isDir with
        | true => exact Leaves.pure later ⟨trivial, rfl⟩
        | false =>
          cases e.regular with
          | false => exact Leaves.pure later ⟨trivial, rfl⟩
          | true => exact writePart_leaves n later some_ goes
      · rw [ended.2, Option.getD_some, Layer.overlay, List.foldl_map, List.foldl_filter]

/-- What the form brings is laid over the copy. -/
theorem receive_leaves (stage : a.Stage top w) (some_ : staging ≠ []) (goes : place a.start.cwd staging = a.base ++ [top]) :
    a.Leaves top (receive staging form) (fun _ f => f = (w.disk.layer (a.base ++ [top])).overlay form.written) w := by
  unfold receive Form.written Form.uploads
  cases files : form.files with
  | nil =>
    dsimp only
    split
    · refine Leaves.answering _ (Leaves.bind (writeProjectFile_leaves stage some_ goes fun _ _ => given_held _ _) fun _ u written laid => ?_)
      exact Leaves.pure written laid
    · exact Leaves.fail stage
  | cons fh rest =>
    apply Leaves.answering
    dsimp only
    split
    · have extracted := @extractZipUpload_leaves _ _ _ _ fh stage some_ goes
      rwa [List.map_map]
    · have parts := @writeParts_leaves _ _ _ _ form stage some_ goes
      rw [files] at parts
      rwa [List.map_map]

theorem dirStats_leaves {f : Layer Seg Bytes} (stage : a.Stage top w) (same : w.disk.layer (a.base ++ [top]) = f) :
    a.Leaves top (dirStats staging) (fun _ g => g = f) w := by
  have walking : Below (a.base ++ [top]) w (.walkDir staging) := below_still (fun _ => id) (fun _ => id) rfl nofun
  refine Leaves.call stage walking fun seen _ walked => ?_
  have still : (handler (.walkDir staging) w).2.disk = w.disk := rfl
  have steady (seen : List Visit) (g : Layer Seg Bytes) : seen.foldl (fun g _ => g) g = g := by
    induction seen with
    | nil => rfl
    | cons _ _ ih => exact ih
  refine Leaves.mono (Leaves.fold (fun _ g => g) (fun _ => True) seen (fun visit _ stats u later => ?_) (0, 0) walked) fun _ g ended => ?_
  · split
    · rename_i names _
      have looking : Below (a.base ++ [top]) u (.info (walkedPath staging names)) := below_still (fun _ => id) (fun _ => id) rfl nofun
      refine Leaves.call later looking fun r _ looked => ?_
      cases r with
      | ok size => exact Leaves.pure looked ⟨trivial, by rw [info_disk]⟩
      | error e => exact Leaves.pure looked ⟨trivial, by rw [info_disk]⟩
    · exact Leaves.pure later ⟨trivial, rfl⟩
  · rw [ended.2, steady, still, same]

end Received

end Stages

end Cronova.Api.Projects
