import Mathlib.Data.List.Dedup
import Mathlib.Data.List.Infix
import Mathlib.Logic.Function.Basic

/-! Trees of directories and files, as lists of the entries by their places. The first entry of a
place is the one that counts. -/

set_option autoImplicit false

namespace Cronova.Files

/-- What is at a place; a link or a device is special. -/
inductive Node (C : Type) where
  | dir
  | file (content : C)
  | special
  deriving DecidableEq

/-- What is below a directory, by the names on the way there. -/
abbrev Layer (N C : Type) := List N → Option (Node C)

abbrev Tree (N C : Type) := List (List N × Node C)

/-- Every entry is in a directory, and so is the first. -/
structure Layer.Sound {N C : Type} (f : Layer N C) : Prop where
  root : f [] = some .dir
  above : ∀ loc rest, rest ≠ [] → f (loc ++ rest) ≠ none → f loc = some .dir

namespace Tree

variable {N C : Type} [DecidableEq N]

def node (t : Tree N C) : Layer N C := fun loc => t.lookup loc

def put (t : Tree N C) (loc : List N) (entry : Node C) : Tree N C := (loc, entry) :: t

def drop (t : Tree N C) (gone : List N → Bool) : Tree N C := t.filter fun e => !gone e.1

/-- The directory and what is below it, at another place; what was there is gone. -/
def move (t : Tree N C) (old new : List N) : Tree N C :=
  (t.drop fun loc => decide (new <+: loc)).map fun e => if old <+: e.1 then (new ++ e.1.drop old.length, e.2) else e

/-- The entries at a place and below it, by the names on the way from there. -/
def below (t : Tree N C) (root : List N) : List (List N) :=
  (((t.map Prod.fst).filter fun loc => decide (root <+: loc)).map fun loc => loc.drop root.length).dedup

/-- What is below a place. -/
def layer (t : Tree N C) (root : List N) : Layer N C := fun loc => t.node (root ++ loc)

/-- Every entry is in a directory. -/
def Grown (t : Tree N C) : Prop := ∀ loc name, t.node (loc ++ [name]) ≠ none → t.node loc = some .dir

section Lookups

variable {t : Tree N C} {loc root old new : List N}

@[simp] theorem node_put (t : Tree N C) (at_ : List N) (entry : Node C) (loc : List N) :
    (t.put at_ entry).node loc = if loc = at_ then some entry else t.node loc := by
  unfold node put
  rw [List.lookup_cons]
  by_cases same : loc = at_
  · simp [same]
  · have other : (loc == at_) = false := by simpa using same
    simp [other, same]

@[simp] theorem node_drop (t : Tree N C) (gone : List N → Bool) (loc : List N) :
    (t.drop gone).node loc = if gone loc then none else t.node loc := by
  unfold node drop
  induction t with
  | nil => simp
  | cons e t ih =>
    obtain ⟨at_, entry⟩ := e
    rw [List.filter_cons, List.lookup_cons]
    by_cases same : loc = at_
    · subst same
      cases left : gone loc with
      | true => simpa [left] using ih
      | false => simp
    · have other : (loc == at_) = false := by simpa using same
      cases left : gone at_ with
      | true => simpa [left, other] using ih
      | false => simpa [List.lookup_cons, other] using ih

/-- Where the moved directory was there is nothing, and where it goes there is what it was. -/
theorem node_move (apart : ¬ new <+: old) (away : ¬ old <+: new) (loc : List N) :
    (t.move old new).node loc =
      if new <+: loc then t.node (old ++ loc.drop new.length) else if old <+: loc then none else t.node loc := by
  unfold move node drop
  induction t with
  | nil => simp
  | cons e t ih =>
    obtain ⟨at_, entry⟩ := e
    rw [List.filter_cons]
    by_cases covered : new <+: at_
    · -- an entry that is covered by the moved ones is not looked up
      rw [if_neg (by simpa using covered), ih]
      by_cases within : new <+: loc
      · have other : old ++ loc.drop new.length ≠ at_ := by
          intro same
          rcases List.prefix_or_prefix_of_prefix covered (same ▸ List.prefix_append old _) with wrong | wrong
          · exact apart wrong
          · exact away wrong
        have miss : (old ++ loc.drop new.length == at_) = false := by simpa using other
        rw [if_pos within, if_pos within, List.lookup_cons, miss]
      · have other : loc ≠ at_ := by
          rintro rfl
          exact within covered
        have miss : (loc == at_) = false := by simpa using other
        rw [if_neg within, if_neg within, List.lookup_cons, miss]
    · rw [if_pos (by simpa using covered), List.map_cons]
      by_cases moved : old <+: at_
      · obtain ⟨rest, rfl⟩ := moved
        dsimp only
        rw [if_pos (List.prefix_append old rest), List.drop_left, List.lookup_cons]
        by_cases here : loc = new ++ rest
        · subst here
          rw [if_pos (List.prefix_append new rest), List.drop_left]
          simp
        · have miss : (loc == new ++ rest) = false := by simpa using here
          rw [miss, ih]
          by_cases within : new <+: loc
          · obtain ⟨names, rfl⟩ := within
            have other : (old ++ names == old ++ rest) = false := by
              simpa using fun same : names = rest => here (same ▸ rfl)
            rw [if_pos (List.prefix_append new names), if_pos (List.prefix_append new names), List.drop_left,
              List.lookup_cons, other]
          · rw [if_neg within, if_neg within]
            by_cases left : old <+: loc
            · rw [if_pos left, if_pos left]
            · have other : (loc == old ++ rest) = false := by
                simpa using fun same : loc = old ++ rest => left (same ▸ List.prefix_append old rest)
              rw [if_neg left, if_neg left, List.lookup_cons, other]
      · dsimp only
        rw [if_neg moved, List.lookup_cons]
        by_cases here : loc = at_
        · subst here
          rw [if_neg covered, if_neg moved]
          simp
        · have miss : (loc == at_) = false := by simpa using here
          rw [miss, ih]
          by_cases within : new <+: loc
          · have other : (old ++ loc.drop new.length == at_) = false := by
              simpa using fun same : old ++ loc.drop new.length = at_ => moved (same ▸ List.prefix_append old _)
            rw [if_pos within, if_pos within, List.lookup_cons, other]
          · rw [if_neg within, if_neg within]
            by_cases left : old <+: loc
            · rw [if_pos left, if_pos left]
            · rw [if_neg left, if_neg left, List.lookup_cons, miss]

theorem node_ne_none : t.node loc ≠ none ↔ loc ∈ t.map Prod.fst := by
  unfold node
  induction t with
  | nil => simp
  | cons e t ih =>
    obtain ⟨key, entry⟩ := e
    rw [List.map_cons, List.mem_cons, ← ih, List.lookup_cons]
    by_cases same : loc = key
    · simp [same]
    · have other : (loc == key) = false := by simpa using same
      simp [other, same]

theorem mem_below : loc ∈ t.below root ↔ t.layer root loc ≠ none := by
  unfold below layer
  rw [List.mem_dedup, List.mem_map]
  constructor
  · rintro ⟨at_, member, rfl⟩
    obtain ⟨found, within⟩ := List.mem_filter.mp member
    obtain ⟨rest, rfl⟩ := of_decide_eq_true within
    rw [List.drop_left]
    exact node_ne_none.mpr found
  · intro found
    refine ⟨root ++ loc, List.mem_filter.mpr ⟨node_ne_none.mp found, ?_⟩, List.drop_left⟩
    exact decide_eq_true (List.prefix_append root loc)

theorem Grown.above (grown : t.Grown) {rest : List N} (some_ : rest ≠ []) (found : t.node (loc ++ rest) ≠ none) :
    t.node loc = some .dir := by
  induction rest using List.reverseRecOn with
  | nil => exact absurd rfl some_
  | append_singleton rest name ih =>
    rw [← List.append_assoc] at found
    have parent := grown _ _ found
    cases rest with
    | nil => simpa using parent
    | cons first rest =>
      apply ih (List.cons_ne_nil _ _)
      rw [parent]
      exact Option.some_ne_none _

/-- Where there is no directory there is nothing below. -/
theorem Grown.empty (grown : t.Grown) (missing : t.node root = none) (loc : List N) : t.layer root loc = none := by
  cases loc with
  | nil => simpa [layer] using missing
  | cons name loc =>
    by_contra found
    have here := grown.above (List.cons_ne_nil name loc) found
    rw [missing] at here
    cases here

theorem grown_iff : t.Grown ↔ ∀ e ∈ t, e.1 ≠ [] → t.node e.1.dropLast = some .dir := by
  constructor
  · intro grown e member some_
    obtain ⟨front, last, shape⟩ : ∃ front last, e.1 = front ++ [last] := ⟨_, _, (List.dropLast_append_getLast some_).symm⟩
    rw [shape, List.dropLast_concat]
    apply grown front last
    rw [← shape]
    exact node_ne_none.mpr (List.mem_map_of_mem member)
  · intro every loc name found
    obtain ⟨e, member, same⟩ := List.mem_map.mp (node_ne_none.mp found)
    have parent := every e member (by simp [same])
    rwa [same, List.dropLast_concat] at parent

instance [DecidableEq C] : Decidable t.Grown := decidable_of_iff _ grown_iff.symm

/-- A directory of a file system. -/
theorem Grown.sound (grown : t.Grown) (is_dir : t.node root = some .dir) : (t.layer root).Sound where
  root := by rw [layer, List.append_nil, is_dir]
  above loc rest some_ found := by
    apply grown.above some_
    rw [List.append_assoc]
    exact found

end Lookups

end Tree

/-! ### Layers -/

namespace Layer

variable {N C : Type}

section Copies

/-- The directories and the regular files. -/
def regular (f : Layer N C) : Layer N C := fun loc =>
  match f loc with
  | some .special => none
  | entry => entry

variable {f : Layer N C} {loc names : List N} {done : List (List N)}

theorem regular_dir (is_dir : f loc = some .dir) : f.regular loc = some .dir := by rw [regular, is_dir]

theorem Sound.above_regular (sound : f.Sound) (within : loc <+: names) (other : loc ≠ names) (found : f.regular names ≠ none) :
    f.regular loc = some .dir := by
  obtain ⟨rest, rfl⟩ := within
  have some_ : rest ≠ [] := by
    rintro rfl
    exact other (List.append_nil loc).symm
  apply regular_dir
  apply sound.above loc rest some_
  intro missing
  rw [regular, missing] at found
  exact found rfl

variable [DecidableEq N]

/-- A directory with nothing in it. -/
def empty : Layer N C := fun loc => if loc = [] then some .dir else none

/-- The directories on the way are made. -/
def mkdirs (f : Layer N C) (way : List N) : Layer N C := fun loc => if loc <+: way then some .dir else f loc

/-- A file is written, and the directories on the way to it are made. -/
def lay (f : Layer N C) (upload : List N × C) : Layer N C := fun loc =>
  if loc = upload.1 then some (.file upload.2) else if loc <+: upload.1 then some .dir else f loc

/-- The files are written one after another. -/
def overlay (f : Layer N C) (uploads : List (List N × C)) : Layer N C := uploads.foldl lay f

/-- One entry that is copied from a tree. -/
def copied (f g : Layer N C) (names : List N) : Layer N C :=
  match f names with
  | some .dir => g.mkdirs names
  | some (.file content) => g.lay (names, content)
  | _ => g

/-- One entry adds itself and the directories on the way to it. -/
theorem copied_eq (sound : f.Sound) (g : Layer N C) (names loc : List N) :
    copied f g names loc = if f.regular names ≠ none ∧ loc <+: names then f.regular loc else g loc := by
  have way (found : f.regular names ≠ none) (within : loc <+: names) (other : loc ≠ names) : f.regular loc = some .dir :=
    sound.above_regular within other found
  unfold copied
  cases entry : f names with
  | none => simp [regular, entry]
  | some entry_ =>
    cases entry_ with
    | special => simp [regular, entry]
    | dir =>
      have found : f.regular names = some .dir := regular_dir entry
      by_cases within : loc <+: names
      · rw [if_pos ⟨by simp [found], within⟩]
        dsimp only [mkdirs]
        rw [if_pos within]
        by_cases same : loc = names
        · rw [same, found]
        · rw [way (by simp [found]) within same]
      · rw [if_neg fun both => within both.2]
        exact if_neg within
    | file content =>
      have found : f.regular names = some (.file content) := by rw [regular, entry]
      by_cases within : loc <+: names
      · rw [if_pos ⟨by simp [found], within⟩]
        dsimp only [lay]
        by_cases same : loc = names
        · rw [if_pos same, same, found]
        · rw [if_neg same, if_pos within, way (by simp [found]) within same]
      · rw [if_neg fun both => within both.2]
        have other : loc ≠ names := by
          rintro rfl
          exact within (List.prefix_refl loc)
        dsimp only [lay]
        rw [if_neg other, if_neg within]

theorem foldl_copied (sound : f.Sound) (g : Layer N C) (done : List (List N)) (loc : List N) :
    done.foldl (copied f) g loc = if ∃ names ∈ done, f.regular names ≠ none ∧ loc <+: names then f.regular loc else g loc := by
  induction done generalizing g with
  | nil => simp
  | cons names done ih =>
    rw [List.foldl_cons, ih, copied_eq sound]
    by_cases later : ∃ names ∈ done, f.regular names ≠ none ∧ loc <+: names
    · obtain ⟨other, member, found⟩ := later
      rw [if_pos ⟨other, member, found⟩, if_pos ⟨other, .tail _ member, found⟩]
    · rw [if_neg later]
      by_cases here : f.regular names ≠ none ∧ loc <+: names
      · rw [if_pos here, if_pos ⟨names, .head _, here⟩]
      · rw [if_neg here, if_neg]
        rintro ⟨other, member, found⟩
        rcases List.mem_cons.mp member with rfl | member
        · exact here found
        · exact later ⟨other, member, found⟩

/-- Once every entry has been copied, in any order, the copy is the tree without what is special. -/
theorem Sound.copy (sound : f.Sound) (every : ∀ names, f names ≠ none → names ∈ done) : done.foldl (copied f) empty = f.regular := by
  funext loc
  rw [foldl_copied sound]
  split
  · rfl
  · rename_i missed
    have root : loc ≠ [] := by
      rintro rfl
      refine missed ⟨[], every [] (by simp [sound.root]), ?_, List.prefix_refl _⟩
      simp [regular_dir sound.root]
    rw [empty, if_neg root]
    by_contra found
    refine missed ⟨loc, every loc ?_, Ne.symm found, List.prefix_refl _⟩
    intro missing
    rw [regular, missing] at found
    exact found rfl

end Copies

end Layer

end Cronova.Files
