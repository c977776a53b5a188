import Cronova.Http.Path

/-! Paths of files: `path.Clean` and `filepath.Join`, whose separator is the slash. -/

set_option autoImplicit false

namespace Cronova.Files

open Http (segments join join_singleton join_cons_cons segments_join)

abbrev Seg := List Char

def dot : Seg := ['.']

def up : Seg := ['.', '.']

/-- An element that `Clean` keeps as it is. -/
structure Plain (seg : Seg) : Prop where
  nonempty : seg ≠ []
  notDot : seg ≠ dot
  notUp : seg ≠ up
  free : '/' ∉ seg

instance (seg : Seg) : Decidable (Plain seg) :=
  decidable_of_iff (seg ≠ [] ∧ seg ≠ dot ∧ seg ≠ up ∧ '/' ∉ seg)
    ⟨fun ⟨a, b, c, d⟩ => ⟨a, b, c, d⟩, fun ⟨a, b, c, d⟩ => ⟨a, b, c, d⟩⟩

/-- One element of a path that is cleaned from left to right; the kept ones are listed last one first. -/
def push (rooted : Bool) (kept : List Seg) (seg : Seg) : List Seg :=
  if seg = [] ∨ seg = dot then kept
  else if seg = up then
    match kept with
    | [] => if rooted then [] else [up]
    | last :: earlier => if last = up then up :: kept else earlier
  else seg :: kept

/-- The elements of a cleaned path. -/
def cleanSegs (rooted : Bool) (segs : List Seg) : List Seg := (segs.foldl (push rooted) []).reverse

/-- `path.IsAbs`. -/
def isAbs (path : List Char) : Bool := path.head? == some '/'

/-- The text of a cleaned path. -/
def render (rooted : Bool) (segs : List Seg) : List Char :=
  if rooted then '/' :: join segs else if segs = [] then dot else join segs

/-- The elements that a path is cleaned to. -/
def elements (path : List Char) : List Seg := cleanSegs (isAbs path) (segments path)

/-- `path.Clean`, and `filepath.Clean` where the separator is the slash. -/
def clean (path : List Char) : List Char := render (isAbs path) (elements path)

/-- `filepath.Join`: empty elements in front are left out. -/
def joinPath (elems : List (List Char)) : List Char :=
  match elems.dropWhile (· == []) with
  | [] => []
  | first :: rest => clean (join (first :: rest))

example : clean "a/./b//../../../c".toList = "../c".toList := by decide
example : clean "/../x/".toList = "/x".toList := by decide

section Elements

variable {rooted : Bool} {seg name : Seg} {segs names : List Seg}

theorem push_plain (kept : List Seg) (plain : Plain seg) : push rooted kept seg = seg :: kept := by
  rw [push.eq_def, if_neg (not_or.mpr ⟨plain.nonempty, plain.notDot⟩), if_neg plain.notUp]

theorem foldl_push_plain (kept : List Seg) (plain : ∀ seg ∈ segs, Plain seg) :
    segs.foldl (push rooted) kept = segs.reverse ++ kept := by
  induction segs generalizing kept with
  | nil => rfl
  | cons seg segs ih =>
    rw [List.foldl_cons, push_plain kept (plain seg (.head _)), ih _ fun other later => plain other (.tail _ later)]
    simp

/-- Plain elements at the end of a path stay there. -/
theorem cleanSegs_append (segs : List Seg) (plain : ∀ seg ∈ names, Plain seg) :
    cleanSegs rooted (segs ++ names) = cleanSegs rooted segs ++ names := by
  rw [cleanSegs, List.foldl_append, foldl_push_plain _ plain, List.reverse_append, List.reverse_reverse]
  rfl

theorem cleanSegs_plain (plain : ∀ seg ∈ names, Plain seg) : cleanSegs rooted names = names := by
  have whole := @cleanSegs_append rooted _ [] plain
  simpa [cleanSegs] using whole

/-- No element of a cleaned path has a slash. -/
theorem cleanSegs_free (free : ∀ seg ∈ segs, '/' ∉ seg) : ∀ seg ∈ cleanSegs rooted segs, '/' ∉ seg := by
  have kept (segs kept : List Seg) (free : ∀ seg ∈ segs, '/' ∉ seg) (before : ∀ seg ∈ kept, '/' ∉ seg) :
      ∀ seg ∈ segs.foldl (push rooted) kept, '/' ∉ seg := by
    induction segs generalizing kept with
    | nil => exact before
    | cons seg segs ih =>
      refine ih _ (fun other later => free other (.tail _ later)) ?_
      have up_free : '/' ∉ up := by decide
      unfold push
      split
      · exact before
      · split
        · split
          · split
            · exact before
            · simpa using up_free
          · split
            · simpa [up_free] using before
            · exact fun other member => before other (.tail _ member)
        · intro other member
          rcases List.mem_cons.mp member with rfl | earlier
          · exact free other (.head _)
          · exact before other earlier
  intro seg member
  exact kept segs [] free nofun seg (List.mem_reverse.mp member)

theorem segments_free (path : List Char) : ∀ seg ∈ segments path, '/' ∉ seg := by
  induction path with
  | nil => simp [segments]
  | cons c path ih =>
    intro seg member
    unfold segments at member ih
    rw [List.splitOn_cons_eq_if_modifyHead] at member
    split at member
    · rcases List.mem_cons.mp member with rfl | later
      · exact List.not_mem_nil
      · exact ih seg later
    · rename_i other
      cases parts : path.splitOn '/' with
      | nil => exact absurd parts (List.splitOn_ne_nil '/' path)
      | cons first rest =>
        rw [parts, List.modifyHead_cons] at member
        rw [parts] at ih
        rcases List.mem_cons.mp member with rfl | later
        · intro listed
          rcases List.mem_cons.mp listed with rfl | within
          · exact other (beq_self_eq_true _)
          · exact ih first (.head _) within
        · exact ih seg (.tail _ later)

theorem segments_append_slash (dir name : List Char) : segments (dir ++ '/' :: name) = segments dir ++ segments name :=
  List.splitOn_append_cons_self dir name

theorem segments_plain (free : '/' ∉ seg) : segments seg = [seg] := List.splitOn_eq_singleton free

theorem elements_free (path : List Char) : ∀ seg ∈ elements path, '/' ∉ seg := cleanSegs_free (segments_free path)

/-- The text of a cleaned path tells its elements. -/
theorem render_injective (free : ∀ seg ∈ segs, '/' ∉ seg) (free' : ∀ seg ∈ names, '/' ∉ seg) (some_ : segs ≠ []) (some' : names ≠ [])
    (same : render rooted segs = render rooted names) : segs = names := by
  have joined : join segs = join names := by
    unfold render at same
    cases rooted with
    | true => exact (List.cons.inj same).2
    | false => simpa [some_, some'] using same
  rw [← segments_join some_ free, joined, segments_join some' free']

theorem join_append_singleton (segs : List Seg) (some_ : segs ≠ []) (name : Seg) : join (segs ++ [name]) = join segs ++ '/' :: name := by
  induction segs with
  | nil => exact absurd rfl some_
  | cons seg segs ih =>
    cases segs with
    | nil => rw [List.singleton_append, join_cons_cons, join_singleton, join_singleton]
    | cons next segs =>
      rw [List.cons_append, List.cons_append, join_cons_cons, ← List.cons_append, ih (List.cons_ne_nil _ _), join_cons_cons]
      simp

/-- The directory that the elements in front of a name make up. -/
def directory (elems : List (List Char)) : List Char := join (elems.dropWhile (· == []))

/-- A plain name goes below the directory, whatever its path was cleaned to. -/
theorem joinPath_plain (elems : List (List Char)) (plain : Plain name) :
    joinPath (elems ++ [name]) = render (isAbs (directory elems)) (elements (directory elems) ++ [name]) := by
  have rest : ∀ seg ∈ [name], Plain seg := by simpa using plain
  have relative : isAbs name = false := by
    cases name with
    | nil => rfl
    | cons c name =>
      have other : c ≠ '/' := fun same => plain.free (same ▸ .head _)
      simpa [isAbs] using other
  unfold joinPath directory
  rw [List.dropWhile_append]
  cases kept : elems.dropWhile (· == []) with
  | nil =>
    have nonempty : (name == []) = false := by simpa using plain.nonempty
    simp only [List.isEmpty_nil, if_true, List.dropWhile_cons, nonempty, Bool.false_eq_true, if_false, join_singleton]
    rw [clean, elements, relative, segments_plain plain.free, cleanSegs_plain rest]
    rfl
  | cons first others =>
    have nonempty : first ≠ [] := by
      have head := List.head?_dropWhile_not (· == []) elems
      rw [kept] at head
      simpa using head
    have rooted : isAbs (join (first :: others) ++ '/' :: name) = isAbs (join (first :: others)) := by
      cases text : join (first :: others) with
      | nil =>
        cases others with
        | nil => exact absurd (by simpa using text) nonempty
        | cons next others => simp [join_cons_cons] at text
      | cons c text => rfl
    simp only [List.isEmpty_cons, Bool.false_eq_true, if_false, List.cons_append]
    rw [← List.cons_append, join_append_singleton _ (List.cons_ne_nil _ _), clean, elements, rooted, segments_append_slash,
      segments_plain plain.free, cleanSegs_append _ rest]
    rfl

theorem joinPath_injective (elems : List (List Char)) {other : Seg} (plain : Plain name) (plain' : Plain other)
    (same : joinPath (elems ++ [name]) = joinPath (elems ++ [other])) : name = other := by
  rw [joinPath_plain elems plain, joinPath_plain elems plain'] at same
  have free {name : Seg} (plain : Plain name) : ∀ seg ∈ elements (directory elems) ++ [name], '/' ∉ seg := by
    intro seg member
    rcases List.mem_append.mp member with within | last
    · exact elements_free _ seg within
    · rw [List.mem_singleton.mp last]
      exact plain.free
  have whole := render_injective (free plain) (free plain') (by simp) (by simp) same
  exact List.singleton_inj.mp (List.append_cancel_left whole)

end Elements

end Cronova.Files
