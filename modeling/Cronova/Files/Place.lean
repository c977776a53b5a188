import Cronova.Files.Path
import Mathlib.Data.List.DropRight

/-! Where paths lead: the way from a working directory, and the functions of `path/filepath` that
move between texts and places. Directories that are links are taken as what they link to. -/

set_option autoImplicit false

namespace Cronova.Files

open Http (segments join join_singleton join_cons_cons segments_join)

/-- One element of the way. -/
def walk (loc : List Seg) (seg : Seg) : List Seg :=
  if seg = [] ∨ seg = dot then loc else if seg = up then loc.dropLast else loc ++ [seg]

/-- Where a path leads, by the names on the way from the root. -/
def place (cwd : List Seg) (path : List Char) : List Seg := (segments path).foldl walk (if isAbs path then [] else cwd)

/-- `filepath.Dir`. -/
def dirPath (path : List Char) : List Char := clean (path.rdropWhile (· ≠ '/'))

/-- `filepath.Base`. -/
def basePath (path : List Char) : List Char :=
  if path = [] then dot
  else
    let last := (path.rdropWhile (· = '/')).rtakeWhile (· ≠ '/')
    if last = [] then ['/'] else last

/-- `filepath.Ext`. -/
def ext (path : List Char) : List Char :=
  let tail := path.rtakeWhile fun c => c ≠ '.' ∧ c ≠ '/'
  if (path.rdropWhile fun c => c ≠ '.' ∧ c ≠ '/').getLast? = some '.' then '.' :: tail else []

/-- The way from one place to another below a common one. -/
def relSegs : List Seg → List Seg → Option (List Seg)
  | [], rest => some rest
  | b :: front, [] => if b = up then none else some ((b :: front).map fun _ => up)
  | b :: front, t :: rest =>
    if b = t then relSegs front rest else if b = up then none else some ((b :: front).map (fun _ => up) ++ t :: rest)

/-- `filepath.Rel`. -/
def relPath (base target : List Char) : Option (List Char) :=
  if isAbs base ≠ isAbs target then none else (relSegs (elements base) (elements target)).map (render false)

/-- The name of a new entry of a directory, as `os.MkdirTemp` puts it together. -/
def entryPath (dir name : List Char) : List Char := if dir.getLast? = some '/' then dir ++ name else dir ++ '/' :: name

example : dirPath "a/b/../c".toList = "a".toList := by decide
example : basePath "/a/b//".toList = "b".toList := by decide
example : ext "a.tar/b.zip".toList = ".zip".toList := by decide
example : relPath "a/b".toList "a/c/d".toList = some "../c/d".toList := by decide

section Cleaned

variable {rooted : Bool} {seg name : Seg} {segs names : List Seg} {cwd start : List Seg} {path dir : List Char}

/-- What a path is cleaned to: steps up, which only a relative path has, and plain names. -/
def Cleaned (rooted : Bool) (segs : List Seg) : Prop :=
  ∃ n names, segs = List.replicate n up ++ names ∧ (rooted = true → n = 0) ∧ ∀ seg ∈ names, Plain seg

theorem Cleaned.push {kept : List Seg} (cleaned : Cleaned rooted kept.reverse) (free : '/' ∉ seg) :
    Cleaned rooted (push rooted kept seg).reverse := by
  obtain ⟨n, names, shape, relative, plain⟩ := cleaned
  have listed : kept = names.reverse ++ List.replicate n up := by
    rw [← List.reverse_reverse kept, shape, List.reverse_append, List.reverse_replicate]
  unfold Files.push
  split
  · exact ⟨n, names, shape, relative, plain⟩
  · rename_i kind
    obtain ⟨nonempty, notDot⟩ := not_or.mp kind
    split
    · cases last : names.reverse with
      | nil =>
        -- nothing but steps up is kept
        obtain rfl : names = [] := by simpa using last
        rw [List.reverse_nil, List.nil_append] at listed
        cases n with
        | zero =>
          subst listed
          cases rooted with
          | true => exact ⟨0, [], rfl, fun _ => rfl, nofun⟩
          | false => exact ⟨1, [], rfl, nofun, nofun⟩
        | succ n =>
          have slack : rooted = false := by
            cases rooted with
            | true => exact absurd (relative rfl) (Nat.succ_ne_zero n)
            | false => rfl
          rw [listed, List.replicate_succ]
          refine ⟨n + 2, [], ?_, fun wrong => absurd wrong (by simp [slack]), nofun⟩
          dsimp only
          rw [if_pos rfl, List.append_nil, ← List.replicate_succ, ← List.replicate_succ, List.reverse_replicate]
      | cons name earlier =>
        have within : name ∈ names := List.mem_reverse.mp (last ▸ .head _)
        have other : name ≠ up := (plain name within).notUp
        rw [listed, last, List.cons_append]
        refine ⟨n, earlier.reverse, ?_, relative, fun seg member => plain seg ?_⟩
        · dsimp only
          rw [if_neg other, List.reverse_append, List.reverse_replicate]
        · exact List.mem_reverse.mp (last ▸ .tail _ (List.mem_reverse.mp member))
    · rename_i notUp
      refine ⟨n, names ++ [seg], ?_, relative, fun other member => ?_⟩
      · rw [List.reverse_cons, shape, List.append_assoc]
      · rcases List.mem_append.mp member with before | added
        · exact plain other before
        · exact List.mem_singleton.mp added ▸ ⟨nonempty, notDot, notUp, free⟩

theorem cleaned_cleanSegs (free : ∀ seg ∈ segs, '/' ∉ seg) : Cleaned rooted (cleanSegs rooted segs) := by
  suffices ∀ kept, Cleaned rooted kept.reverse → Cleaned rooted (segs.foldl (push rooted) kept).reverse from
    this [] ⟨0, [], rfl, fun _ => rfl, nofun⟩
  induction segs with
  | nil => exact fun _ cleaned => cleaned
  | cons seg segs ih =>
    intro kept cleaned
    exact ih (fun other later => free other (.tail _ later)) _ (cleaned.push (free seg (.head _)))

theorem elements_cleaned (path : List Char) : Cleaned (isAbs path) (elements path) := cleaned_cleanSegs (segments_free path)

theorem Cleaned.append (cleaned : Cleaned rooted segs) (plain : ∀ seg ∈ names, Plain seg) : Cleaned rooted (segs ++ names) := by
  obtain ⟨n, before, shape, relative, early⟩ := cleaned
  refine ⟨n, before ++ names, by rw [shape, List.append_assoc], relative, fun seg member => ?_⟩
  exact (List.mem_append.mp member).elim (early seg) (plain seg)

theorem Cleaned.mem (cleaned : Cleaned rooted segs) (member : seg ∈ segs) : seg = up ∨ Plain seg := by
  obtain ⟨n, names, rfl, _, plain⟩ := cleaned
  rcases List.mem_append.mp member with climbs | within
  · exact .inl (List.eq_of_mem_replicate climbs)
  · exact .inr (plain seg within)

theorem Cleaned.free (cleaned : Cleaned rooted segs) : ∀ seg ∈ segs, '/' ∉ seg := by
  intro seg member
  rcases cleaned.mem member with rfl | plain
  · decide
  · exact plain.free

theorem Cleaned.nonempty (cleaned : Cleaned rooted segs) (member : seg ∈ segs) : seg ≠ [] := by
  rcases cleaned.mem member with rfl | plain
  · decide
  · exact plain.nonempty

/-- Without a step up in front there is none at all. -/
theorem Cleaned.plain (cleaned : Cleaned rooted segs) (level : segs.head? ≠ some up) : ∀ seg ∈ segs, Plain seg := by
  obtain ⟨n, names, rfl, _, plain⟩ := cleaned
  cases n with
  | zero => simpa using plain
  | succ n => exact absurd rfl level

/-- Cleaning changes nothing about what is cleaned. -/
theorem Cleaned.cleanSegs_eq (cleaned : Cleaned rooted segs) : cleanSegs rooted segs = segs := by
  obtain ⟨n, names, rfl, relative, plain⟩ := cleaned
  rw [cleanSegs_append _ plain]
  congr 1
  cases rooted with
  | true =>
    rw [relative rfl]
    rfl
  | false =>
    have climb : ∀ n, (List.replicate n up).foldl (Files.push false) [] = List.replicate n up := by
      intro n
      induction n with
      | zero => rfl
      | succ n ih =>
        rw [List.replicate_succ', List.foldl_append, ih, ← List.replicate_succ']
        cases n with
        | zero => rfl
        | succ n =>
          rw [List.replicate_succ, List.replicate_succ, List.replicate_succ]
          rfl
    rw [cleanSegs, climb, List.reverse_replicate]

theorem isAbs_join (cleaned : Cleaned rooted segs) : isAbs (join segs) = false := by
  cases segs with
  | nil => rfl
  | cons seg rest =>
    have nonempty := cleaned.nonempty (.head rest)
    have free := cleaned.free seg (.head rest)
    cases seg with
    | nil => exact absurd rfl nonempty
    | cons c seg =>
      have other : c ≠ '/' := fun same => free (same ▸ .head _)
      cases rest with
      | nil => simpa [isAbs, join_singleton] using other
      | cons next rest => simpa [isAbs, join_cons_cons] using other

theorem isAbs_render (cleaned : Cleaned rooted segs) : isAbs (render rooted segs) = rooted := by
  cases rooted with
  | true => rfl
  | false =>
    unfold render
    rw [if_neg Bool.false_ne_true]
    split
    · rfl
    · exact isAbs_join cleaned

theorem render_ne_nil (cleaned : Cleaned rooted segs) : render rooted segs ≠ [] := by
  cases rooted with
  | true => exact List.cons_ne_nil _ _
  | false =>
    unfold render
    rw [if_neg Bool.false_ne_true]
    split
    · decide
    · rename_i some_
      obtain ⟨seg, rest, rfl⟩ := List.exists_cons_of_ne_nil some_
      have nonempty := cleaned.nonempty (.head rest)
      cases rest with
      | nil => simpa using nonempty
      | cons next rest => simp [join_cons_cons]

/-- Empty elements and dots are skipped on the way and by `Clean`. -/
theorem foldl_render {A : Type} (step : A → Seg → A) (still : ∀ a seg, seg = [] ∨ seg = dot → step a seg = a)
    (cleaned : Cleaned rooted segs) (a : A) : (segments (render rooted segs)).foldl step a = segs.foldl step a := by
  have whole (some_ : segs ≠ []) : segments (join segs) = segs := segments_join some_ cleaned.free
  unfold render
  cases rooted with
  | true =>
    rw [if_pos rfl]
    have front : segments ('/' :: join segs) = [] :: segments (join segs) := segments_append_slash [] (join segs)
    rw [front, List.foldl_cons, still _ _ (.inl rfl)]
    cases segs with
    | nil => exact still _ _ (.inl rfl)
    | cons seg rest => rw [whole (List.cons_ne_nil _ _)]
  | false =>
    rw [if_neg Bool.false_ne_true]
    split
    · rename_i none_
      subst none_
      exact still _ _ (.inr rfl)
    · rename_i some_
      rw [whole some_]

theorem elements_render (cleaned : Cleaned rooted segs) : elements (render rooted segs) = segs := by
  have still (kept : List Seg) (seg : Seg) (skipped : seg = [] ∨ seg = dot) : push rooted kept seg = kept := if_pos skipped
  rw [elements, isAbs_render cleaned, cleanSegs, foldl_render _ still cleaned]
  exact cleaned.cleanSegs_eq

end Cleaned

/-! ### The way -/

section Ways

variable {rooted : Bool} {seg name : Seg} {segs names : List Seg} {cwd start : List Seg} {path dir : List Char}

theorem walk_plain (loc : List Seg) (plain : Plain seg) : walk loc seg = loc ++ [seg] := by
  rw [walk, if_neg (not_or.mpr ⟨plain.nonempty, plain.notDot⟩), if_neg plain.notUp]

theorem foldl_walk_plain (loc : List Seg) (plain : ∀ seg ∈ names, Plain seg) : names.foldl walk loc = loc ++ names := by
  induction names generalizing loc with
  | nil => simp
  | cons name names ih =>
    rw [List.foldl_cons, walk_plain loc (plain name (.head _)), ih _ fun seg later => plain seg (.tail _ later)]
    simp

/-- What `Clean` does at an element does not change where the path leads. -/
theorem foldl_walk_push {kept : List Seg} (cleaned : Cleaned rooted kept.reverse) (top : rooted = true → start = []) :
    (push rooted kept seg).reverse.foldl walk start = walk (kept.reverse.foldl walk start) seg := by
  unfold push
  split
  · rename_i skipped
    exact (if_pos skipped).symm
  · split
    · rename_i kind notUp
      subst notUp
      cases kept with
      | nil =>
        cases rooted with
        | true => simp [top rfl, walk, up, dot]
        | false => rfl
      | cons last earlier =>
        dsimp only
        split
        · simp
        · rename_i other
          have plain : Plain last := by
            have member : last ∈ (last :: earlier).reverse := List.mem_reverse.mpr (.head _)
            exact (cleaned.mem member).resolve_left other
          rw [List.reverse_cons, List.foldl_append, List.foldl_cons, List.foldl_nil, walk_plain _ plain]
          simp [walk, up, dot]
    · simp

theorem foldl_walk_cleanSegs (free : ∀ seg ∈ segs, '/' ∉ seg) (top : rooted = true → start = []) :
    (cleanSegs rooted segs).foldl walk start = segs.foldl walk start := by
  suffices ∀ kept, Cleaned rooted kept.reverse →
      (segs.foldl (push rooted) kept).reverse.foldl walk start = segs.foldl walk (kept.reverse.foldl walk start) from
    this [] ⟨0, [], rfl, fun _ => rfl, nofun⟩
  induction segs with
  | nil => exact fun _ _ => rfl
  | cons seg segs ih =>
    intro kept cleaned
    rw [List.foldl_cons, List.foldl_cons, ih (fun other later => free other (.tail _ later)) _ (cleaned.push (free seg (.head _))),
      foldl_walk_push cleaned top]

theorem place_elements (cwd : List Seg) (path : List Char) :
    place cwd path = (elements path).foldl walk (if isAbs path then [] else cwd) := by
  refine (foldl_walk_cleanSegs (segments_free path) fun rooted => ?_).symm
  rw [if_pos rooted]

theorem place_render (cleaned : Cleaned rooted segs) :
    place cwd (render rooted segs) = segs.foldl walk (if rooted then [] else cwd) := by
  rw [place_elements, elements_render cleaned, isAbs_render cleaned]

/-- `Clean` keeps the place of a path. -/
theorem place_clean (cwd : List Seg) (path : List Char) : place cwd (clean path) = place cwd path := by
  rw [clean, place_render (elements_cleaned path), ← place_elements]

theorem clean_ne_nil (path : List Char) : clean path ≠ [] := render_ne_nil (elements_cleaned path)

/-- Plain names below a directory are joined to its path as they are. -/
theorem joinPath_names (some_ : dir ≠ []) (below : names ≠ []) (plain : ∀ seg ∈ names, Plain seg) :
    joinPath [dir, join names] = render (isAbs dir) (elements dir ++ names) := by
  have front : [dir, join names].dropWhile (· == []) = [dir, join names] := by simp [some_]
  have rooted : isAbs (dir ++ '/' :: join names) = isAbs dir := by
    obtain ⟨c, dir, rfl⟩ := List.exists_cons_of_ne_nil some_
    rfl
  have parted : segments (join names) = names := segments_join below fun seg member => (plain seg member).free
  rw [joinPath, front]
  dsimp only
  rw [join_cons_cons, join_singleton, clean, elements, rooted, segments_append_slash, parted, cleanSegs_append _ plain]
  rfl

theorem place_joinPath (some_ : dir ≠ []) (below : names ≠ []) (plain : ∀ seg ∈ names, Plain seg) :
    place cwd (joinPath [dir, join names]) = place cwd dir ++ names := by
  rw [joinPath_names some_ below plain, place_render ((elements_cleaned dir).append plain), List.foldl_append,
    foldl_walk_plain _ plain, ← place_elements]

/-- The dot at the end of a path is where the path leads. -/
theorem place_joinPath_dot (some_ : dir ≠ []) : place cwd (joinPath [dir, dot]) = place cwd dir := by
  have front : [dir, dot].dropWhile (· == []) = [dir, dot] := by simp [some_]
  have rooted : isAbs (dir ++ '/' :: dot) = isAbs dir := by
    obtain ⟨c, dir, rfl⟩ := List.exists_cons_of_ne_nil some_
    rfl
  have parted : segments dot = [dot] := by decide
  rw [joinPath, front]
  dsimp only
  rw [join_cons_cons, join_singleton, place_clean, place, place, rooted, segments_append_slash, parted, List.foldl_append]
  rfl

/-- A path to plain names below a directory, which `Clean` does not touch. -/
structure Leads (dir : List Char) (names : List Seg) (path : List Char) : Prop where
  rooted : isAbs path = isAbs dir
  elements : elements path = Files.elements dir ++ names

theorem leads_self (dir : List Char) : Leads dir [] dir := ⟨rfl, (List.append_nil _).symm⟩

theorem leads_joinPath (some_ : dir ≠ []) (below : names ≠ []) (plain : ∀ seg ∈ names, Plain seg) :
    Leads dir names (joinPath [dir, join names]) := by
  have cleaned := (elements_cleaned dir).append plain
  rw [joinPath_names some_ below plain]
  exact ⟨isAbs_render cleaned, elements_render cleaned⟩

theorem Leads.place (leads : Leads dir names path) (plain : ∀ seg ∈ names, Plain seg) : place cwd path = Files.place cwd dir ++ names := by
  rw [place_elements, leads.rooted, leads.elements, List.foldl_append, foldl_walk_plain _ plain, ← place_elements]

/-- One name further. -/
theorem Leads.next (leads : Leads dir names path) (some_ : path ≠ []) (plain : Plain name) :
    Leads dir (names ++ [name]) (joinPath [path, name]) ∧ joinPath [path, name] ≠ [] := by
  have single : ∀ seg ∈ [name], Plain seg := by simpa using plain
  have further := leads_joinPath some_ (List.cons_ne_nil _ _) single
  have shape := joinPath_names some_ (List.cons_ne_nil _ _) single
  rw [join_singleton] at further shape
  refine ⟨⟨further.rooted.trans leads.rooted, ?_⟩, ?_⟩
  · rw [further.elements, leads.elements, List.append_assoc]
  · rw [shape]
    exact render_ne_nil ((elements_cleaned path).append single)

theorem relSegs_append (front names : List Seg) : relSegs front (front ++ names) = some names := by
  induction front with
  | nil => rfl
  | cons seg front ih => rw [List.cons_append, relSegs, if_pos rfl, ih]

/-- The way from a directory to a path below it. -/
theorem Leads.rel (leads : Leads dir names path) : relPath dir path = some (render false names) := by
  rw [relPath, if_neg (by simp [leads.rooted]), leads.elements, relSegs_append]
  rfl

/-! ### The last element -/

/-- A path up to its last element. -/
def Upto (front : List Char) : Prop := front = [] ∨ front.getLast? = some '/'

theorem rdropWhile_upto {front : List Char} (upto : Upto front) (free : '/' ∉ name) :
    (front ++ name).rdropWhile (· ≠ '/') = front := by
  have all : ∀ c ∈ name.reverse, decide (c ≠ '/') = true := by
    intro c member
    have other : c ≠ '/' := fun same => free (same ▸ List.mem_reverse.mp member)
    exact decide_eq_true other
  rw [List.rdropWhile, List.reverse_append, List.dropWhile_append_of_pos all]
  rcases upto with rfl | last
  · rfl
  · obtain ⟨earlier, rfl⟩ : ∃ earlier, front = earlier ++ ['/'] := List.getLast?_eq_some_iff.mp last
    simp

theorem place_upto {front : List Char} (upto : Upto front) (plain : Plain name) :
    place cwd (front ++ name) = place cwd front ++ [name] := by
  rcases upto with rfl | last
  · have relative : isAbs name = false := by
      have cleaned : Cleaned false [name] := ⟨0, [name], rfl, nofun, by simpa using plain⟩
      simpa using isAbs_join cleaned
    have blank : segments [] = [[]] := by decide
    rw [List.nil_append, place, place, relative, segments_plain plain.free, blank]
    exact walk_plain cwd plain
  · obtain ⟨earlier, rfl⟩ : ∃ earlier, front = earlier ++ ['/'] := List.getLast?_eq_some_iff.mp last
    have rooted : isAbs (earlier ++ '/' :: name) = isAbs (earlier ++ ['/']) := by
      cases earlier with
      | nil => rfl
      | cons c earlier => rfl
    have blank : segments [] = [[]] := by decide
    rw [List.append_assoc, List.singleton_append, place, place, rooted, segments_append_slash, segments_append_slash,
      segments_plain plain.free, blank, List.foldl_append, List.foldl_append]
    exact walk_plain _ plain

theorem place_entryPath (some_ : dir ≠ []) (plain : Plain name) : place cwd (entryPath dir name) = place cwd dir ++ [name] := by
  unfold entryPath
  split
  · rename_i last
    exact place_upto (.inr last) plain
  · have upto : Upto (dir ++ ['/']) := .inr (by simp)
    have whole := @place_upto _ cwd _ upto plain
    have rooted : isAbs (dir ++ ['/']) = isAbs dir := by
      obtain ⟨c, dir, rfl⟩ := List.exists_cons_of_ne_nil some_
      rfl
    have blank : segments [] = [[]] := by decide
    have same : place cwd (dir ++ ['/']) = place cwd dir := by
      rw [place, place, rooted, segments_append_slash, blank, List.foldl_append]
      rfl
    rw [List.append_assoc, List.singleton_append, same] at whole
    exact whole

theorem render_upto (rooted : Bool) (segs : List Seg) (name : Seg) :
    ∃ front, Upto front ∧ render rooted (segs ++ [name]) = front ++ name := by
  have body : render rooted (segs ++ [name]) = (if rooted then ['/'] else []) ++ join (segs ++ [name]) := by
    unfold render
    cases rooted with
    | true => rfl
    | false => simp
  rw [body]
  cases segs with
  | nil =>
    rw [List.nil_append, join_singleton]
    exact ⟨_, by cases rooted <;> simp [Upto], rfl⟩
  | cons seg rest =>
    rw [join_append_singleton _ (List.cons_ne_nil _ _)]
    exact ⟨(if rooted then ['/'] else []) ++ join (seg :: rest) ++ ['/'], .inr (by simp), by simp⟩

/-- A path below a directory: its parent, and its name there. -/
theorem place_dirPath (some_ : dir ≠ []) (plain : ∀ seg ∈ names, Plain seg) (last : Plain name) :
    place cwd (dirPath (joinPath [dir, join (names ++ [name])])) = place cwd dir ++ names := by
  have every : ∀ seg ∈ names ++ [name], Plain seg := by
    intro seg member
    rcases List.mem_append.mp member with before | final
    · exact plain seg before
    · exact List.mem_singleton.mp final ▸ last
  have below : names ++ [name] ≠ [] := by simp
  have whole := @place_joinPath _ cwd _ some_ below every
  rw [joinPath_names some_ below every, ← List.append_assoc] at whole ⊢
  obtain ⟨front, upto, shape⟩ := render_upto (isAbs dir) (elements dir ++ names) name
  rw [shape] at whole ⊢
  rw [place_upto upto last, ← List.append_assoc] at whole
  rw [dirPath, rdropWhile_upto upto last.free, place_clean]
  exact List.append_cancel_right whole

theorem basePath_joinPath (some_ : dir ≠ []) (plain : Plain name) : basePath (joinPath [dir, name]) = name := by
  have every : ∀ seg ∈ [name], Plain seg := by simpa using plain
  have shape := joinPath_names some_ (List.cons_ne_nil _ _) every
  rw [join_singleton] at shape
  obtain ⟨front, upto, parted⟩ := render_upto (isAbs dir) (elements dir) name
  rw [shape, parted, basePath, if_neg (by simp [plain.nonempty])]
  obtain ⟨earlier, c, rfl⟩ : ∃ earlier c, name = earlier ++ [c] := by
    obtain ⟨earlier, c, split⟩ := List.eq_nil_or_concat name |>.resolve_left plain.nonempty
    exact ⟨earlier, c, by simpa using split⟩
  have other : c ≠ '/' := fun same => plain.free (by simp [same])
  have kept : (front ++ (earlier ++ [c])).rdropWhile (· = '/') = front ++ (earlier ++ [c]) := by
    rw [← List.append_assoc, List.rdropWhile_concat_neg]
    simpa using other
  have last : (front ++ (earlier ++ [c])).rtakeWhile (· ≠ '/') = earlier ++ [c] := by
    have all : ∀ x ∈ (earlier ++ [c]).reverse, decide (x ≠ '/') = true := by
      intro x member
      have different : x ≠ '/' := fun same => plain.free (same ▸ List.mem_reverse.mp member)
      exact decide_eq_true different
    rw [List.rtakeWhile, List.reverse_append, List.takeWhile_append_of_pos all]
    rcases upto with rfl | slash
    · simp
    · obtain ⟨before, rfl⟩ : ∃ before, front = before ++ ['/'] := List.getLast?_eq_some_iff.mp slash
      simp
  dsimp only
  rw [kept, last, if_neg plain.nonempty]

end Ways

end Cronova.Files
