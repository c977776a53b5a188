import Cronova.Files.Place
import Cronova.Files.Tree
import Cronova.Process.Contract
import Mathlib.Data.List.Sort
import Mathlib.Data.Char
import Mathlib.Data.List.Lex

/-! The file system under a program, one call of `os`, `io` or `path/filepath` at a time. Every call
may fail, and those that do several things may fail halfway. -/

set_option autoImplicit false

namespace Cronova.Files

open Process

abbrev Bytes := List UInt8

inductive Kind where
  | dir | regular | special
  deriving DecidableEq

def Node.kind {C : Type} : Node C → Kind
  | .dir => .dir
  | .file _ => .regular
  | .special => .special

/-- An error, by what `os.IsNotExist` says of it. -/
structure OsErr where
  notExist : Bool
  deriving DecidableEq

/-- What `filepath.WalkDir` calls its function with: an entry below the root, or the error of a directory. -/
inductive Visit where
  | entry (names : List Seg) (kind : Kind)
  | broken (names : List Seg) (e : OsErr)
  deriving DecidableEq

/-- The entry that is visited. -/
def Visit.names? : Visit → Option (List Seg)
  | .entry names _ => some names
  | .broken _ _ => none

/-- What `io.Copy` reads: a part of the request, or an open file. -/
inductive Source where
  | given (content : Bytes)
  | opened (path : List Char)

inductive Op where
  | openPart
  | mkdirAll (path : List Char)
  | mkdirTemp (dir start : List Char)
  | stat (path : List Char)
  | walkDir (root : List Char)
  | info (path : List Char)
  | openFile (path : List Char)
  /-- `os.OpenFile` with `O_CREATE|O_WRONLY|O_TRUNC`. -/
  | create (path : List Char)
  /-- `io.Copy` to the created file, and its `Close`. -/
  | copy (path : List Char) (src : Source) (limit : Nat)
  | remove (path : List Char)
  | removeAll (path : List Char)
  | rename (old new : List Char)

abbrev Op.Reply : Op → Type
  | .mkdirTemp _ _ => Except OsErr (List Char)
  | .stat _ => Except OsErr Kind
  | .walkDir _ => List Visit
  | .info _ | .copy _ _ _ => Except OsErr Nat
  | _ => Except OsErr Unit

abbrev os : Signature := ⟨Op, Op.Reply⟩

/-- How a call fails: after so many steps, or with these entries gone or not read. -/
structure Fault where
  steps : Nat
  touched : List (List Seg)

/-- What comes from outside at one call: its failure, and the numbers that are drawn for names. -/
structure Turn where
  fault : Option Fault
  drawn : List Nat

abbrev Disk := Tree Seg Bytes

structure World where
  disk : Disk
  cwd : List Seg
  turns : List Turn

/-- A failure for another reason than that something does not exist. -/
def broken : OsErr := ⟨false⟩

def missing : OsErr := ⟨true⟩

/-- The error of a path that leads to nothing: a way through a file is another one. -/
def absent (t : Disk) (loc : List Seg) : OsErr :=
  ⟨loc.inits.all fun way => match t.node way with | some .dir | none => true | _ => false⟩

def digits (n : Nat) : List Char := (toString n).toList

/-- `MkdirAll`: the directories from the root on. -/
def makeDirs : List (List Seg) → Disk → Except OsErr Unit × Disk
  | [], t => (.ok (), t)
  | loc :: rest, t =>
    match t.node loc with
    | some .dir => makeDirs rest t
    | none => makeDirs rest (t.put loc .dir)
    | _ => (.error broken, t)

/-- The entries from a root on, in the order of their names. -/
def walked (t : Disk) (root : List Seg) : List (List Seg × Kind) :=
  ((t.below root).insertionSort (· ≤ ·)).filterMap fun names => (t.layer root names).map fun entry => (names, entry.kind)

/-- The visits, where the directories in the list cannot be read. -/
def visits (entries : List (List Seg × Kind)) (unread : List (List Seg)) : List Visit :=
  if entries = [] then [.broken [] missing]
  else
    (entries.filter fun e => unread.all fun names => !decide (names ∈ entries.map Prod.fst ∧ names <+: e.1 ∧ names ≠ e.1)).flatMap fun e =>
      .entry e.1 e.2 :: if e.1 ∈ unread then [.broken e.1 broken] else []

def isDir (t : Disk) (loc : List Seg) : Bool := t.node loc == some .dir

/-- What a source holds. -/
def held (t : Disk) (cwd : List Seg) : Source → Bytes
  | .given content => content
  | .opened path =>
    match t.node (place cwd path) with
    | some (.file content) => content
    | _ => []

/-- An entry is gone where everything below it is. -/
def removed (t : Disk) (root : List Seg) (gone : List (List Seg)) (loc : List Seg) : Bool :=
  decide (root <+: loc) && (t.below loc).all fun names => decide (loc ++ names ∈ gone)

/-- The answer to a call, and what it does. -/
def answer (cwd : List Seg) (turn : Turn) : (o : Op) → Disk → o.Reply × Disk
  | .openPart, t => (match turn.fault with | some _ => .error broken | none => .ok (), t)
  | .mkdirAll path, t =>
    let way := (place cwd path).inits
    match turn.fault with
    | some f => (.error broken, (makeDirs (way.take f.steps) t).2)
    | none => makeDirs way t
  | .mkdirTemp dir start, t =>
    match turn.fault with
    | some _ => (.error broken, t)
    | none =>
      if isDir t (place cwd dir) then
        match turn.drawn.find? fun n => (t.node (place cwd (entryPath dir (start ++ digits n)))).isNone with
        | some n => (.ok (entryPath dir (start ++ digits n)), t.put (place cwd (entryPath dir (start ++ digits n))) .dir)
        | none => (.error broken, t)
      else (.error (absent t (place cwd dir)), t)
  | .stat path, t =>
    match turn.fault with
    | some _ => (.error broken, t)
    | none => (match t.node (place cwd path) with | some entry => .ok entry.kind | none => .error (absent t (place cwd path)), t)
  | .walkDir root, t =>
    (visits (walked t (place cwd root)) (match turn.fault with | some f => f.touched | none => []), t)
  | .info path, t =>
    match turn.fault, t.node (place cwd path) with
    | none, some (.file content) => (.ok content.length, t)
    | _, _ => (.error broken, t)
  | .openFile path, t =>
    match turn.fault, t.node (place cwd path) with
    | none, some _ => (.ok (), t)
    | none, none => (.error (absent t (place cwd path)), t)
    | some _, _ => (.error broken, t)
  | .create path, t =>
    let loc := place cwd path
    match turn.fault with
    | some _ => (.error broken, t)
    | none =>
      if isDir t loc.dropLast then
        match t.node loc with
        | none | some (.file _) => (.ok (), t.put loc (.file []))
        | _ => (.error broken, t)
      else (.error (absent t loc), t)
  | .copy path src limit, t =>
    let loc := place cwd path
    let content := (held t cwd src).take limit
    match turn.fault, t.node loc with
    | none, some (.file _) => (.ok content.length, t.put loc (.file content))
    | some f, some (.file _) => (.error broken, t.put loc (.file (content.take f.steps)))
    | _, _ => (.error broken, t)
  | .remove path, t =>
    let loc := place cwd path
    match turn.fault, t.below loc with
    | none, [[]] => (.ok (), t.drop (· = loc))
    | none, [] => (.error (absent t loc), t)
    | _, _ => (.error broken, t)
  | .removeAll path, t =>
    let loc := place cwd path
    match turn.fault with
    | some f => (.error broken, t.drop (removed t loc f.touched))
    | none => (.ok (), t.drop fun at_ => decide (loc <+: at_))
  | .rename old new, t =>
    let src := place cwd old
    let dst := place cwd new
    match turn.fault with
    | some _ => (.error broken, t)
    | none =>
      if t.node src = none ∨ isDir t dst.dropLast = false then (.error (absent t (if t.node src = none then src else dst)), t)
      else if src <+: dst ∨ dst <+: src ∨ isDir t dst ∨ (isDir t src ∧ t.node dst ≠ none) then (.error broken, t)
      else (.ok (), t.move src dst)

def World.turn (w : World) : Turn := w.turns.headD ⟨none, []⟩

/-- One call. -/
def handler : Handler os World := fun o w =>
  ((answer w.cwd w.turn o w.disk).1, { w with disk := (answer w.cwd w.turn o w.disk).2, turns := w.turns.tail })

/-! ### What a call can change -/

/-- A place whose entry a call may change. -/
def Op.Reaches (cwd : List Seg) (t : Disk) : Op → List Seg → Prop
  | .mkdirTemp dir start, loc => t.node loc = none ∧ ∃ n, loc = place cwd (entryPath dir (start ++ digits n))
  | .create path, loc | .copy path _ _, loc | .remove path, loc => loc = place cwd path
  | .removeAll path, loc => place cwd path <+: loc
  | .rename old new, loc => place cwd old <+: loc ∨ place cwd new <+: loc
  | _, _ => False

/-- A place where a call may make a directory. -/
def Op.Makes (cwd : List Seg) : Op → List Seg → Prop
  | .mkdirAll path, loc => loc <+: place cwd path
  | _, _ => False

/-- The places that a call that writes is asked to go to. -/
def Op.targets (cwd : List Seg) : Op → List (List Seg)
  | .mkdirAll path | .mkdirTemp path _ | .create path | .copy path _ _ | .remove path | .removeAll path => [place cwd path]
  | .rename old new => [place cwd old, place cwd new]
  | _ => []

section Effects

variable {cwd : List Seg} {turn : Turn} {t : Disk} {w : World} {loc root : List Seg} {path : List Char}

theorem makeDirs_node (locs : List (List Seg)) (t : Disk) (loc : List Seg) :
    (makeDirs locs t).2.node loc = t.node loc ∨ (loc ∈ locs ∧ t.node loc = none ∧ (makeDirs locs t).2.node loc = some .dir) := by
  induction locs generalizing t with
  | nil => exact .inl rfl
  | cons at_ rest ih =>
    unfold makeDirs
    split
    · exact (ih t).imp_right fun ⟨member, free, made⟩ => ⟨.tail _ member, free, made⟩
    · rename_i free
      rcases ih (t.put at_ .dir) with same | ⟨member, later, made⟩
      · by_cases here : loc = at_
        · subst here
          refine .inr ⟨.head _, free, ?_⟩
          simpa using same
        · refine .inl ?_
          simpa [here] using same
      · refine .inr ⟨.tail _ member, ?_, made⟩
        by_cases here : loc = at_
        · simp [here] at later
        · simpa [here] using later
    · exact .inl rfl

/-- When `MkdirAll` succeeds, the way is all directories. -/
theorem makeDirs_ok (locs : List (List Seg)) {t : Disk} (done : (makeDirs locs t).1 = .ok ()) (loc : List Seg) :
    (makeDirs locs t).2.node loc = if loc ∈ locs then some .dir else t.node loc := by
  induction locs generalizing t with
  | nil => simp [makeDirs]
  | cons at_ rest ih =>
    unfold makeDirs at done ⊢
    split at done
    · rename_i here
      rw [ih done]
      by_cases same : loc = at_
      · simp [same, here]
      · simp [same]
    · rw [ih done]
      by_cases same : loc = at_
      · simp [same]
      · simp [same]
    · cases done

theorem removed_within (t : Disk) (gone : List (List Seg)) (away : ¬ root <+: loc) : removed t root gone loc = false := by
  simp [removed, away]

/-- Nothing else is changed, but for directories that are made where nothing was. -/
theorem answer_frame (cwd : List Seg) (turn : Turn) (o : Op) (t : Disk) {loc : List Seg} (away : ¬ o.Reaches cwd t loc) :
    (answer cwd turn o t).2.node loc = t.node loc ∨
      (o.Makes cwd loc ∧ t.node loc = none ∧ (answer cwd turn o t).2.node loc = some .dir) := by
  cases o with
  | openPart | walkDir => exact .inl rfl
  | stat | info | openFile =>
    refine .inl ?_
    simp only [answer]
    split <;> rfl
  | mkdirAll path =>
    have way (locs : List (List Seg)) (within : locs <+: (place cwd path).inits) (changed : loc ∈ locs) : loc <+: place cwd path :=
      (List.mem_inits _ _).mp (within.subset changed)
    simp only [answer]
    split
    · exact (makeDirs_node _ t loc).imp_right fun made => ⟨way _ (List.take_prefix _ _) made.1, made.2⟩
    · exact (makeDirs_node _ t loc).imp_right fun made => ⟨way _ (List.prefix_refl _) made.1, made.2⟩
  | mkdirTemp dir start =>
    refine .inl ?_
    simp only [answer]
    split
    · rfl
    · split
      · split
        · rename_i n drawn
          have free : t.node (place cwd (entryPath dir (start ++ digits n))) = none := by
            simpa using List.find?_some drawn
          have other : loc ≠ place cwd (entryPath dir (start ++ digits n)) := fun same => away ⟨same ▸ free, n, same⟩
          simp [other]
        · rfl
      · rfl
  | create path =>
    have other : loc ≠ place cwd path := away
    refine .inl ?_
    simp only [answer]
    repeat' split
    all_goals simp [other]
  | copy path src limit =>
    have other : loc ≠ place cwd path := away
    refine .inl ?_
    simp only [answer]
    split
    all_goals simp [other]
  | remove path =>
    have other : loc ≠ place cwd path := away
    refine .inl ?_
    simp only [answer]
    split
    all_goals simp [other]
  | removeAll path =>
    have other : ¬ place cwd path <+: loc := away
    refine .inl ?_
    simp only [answer]
    split
    · simp [removed_within t _ other]
    · simp [other]
  | rename old new =>
    obtain ⟨left, right⟩ := not_or.mp away
    refine .inl ?_
    simp only [answer]
    split
    · rfl
    · split
      · rfl
      · split
        · rfl
        · rename_i apart
          have ahead : ¬ place cwd old <+: place cwd new := fun within => apart (.inl within)
          have behind : ¬ place cwd new <+: place cwd old := fun within => apart (.inr (.inl within))
          rw [Tree.node_move behind ahead, if_neg right, if_neg left]

/-- Only a renaming brings something special to a place. -/
theorem answer_special (cwd : List Seg) (turn : Turn) {o : Op} (still : ∀ old new, o ≠ .rename old new) (t : Disk) {loc : List Seg}
    (found : (answer cwd turn o t).2.node loc = some .special) : t.node loc = some .special := by
  cases o with
  | openPart | walkDir => exact found
  | stat | info | openFile =>
    simp only [answer] at found
    split at found <;> exact found
  | mkdirAll path =>
    rcases @answer_frame cwd turn (.mkdirAll path) t loc id with same | ⟨_, _, made⟩
    · rw [← same, found]
    · rw [found] at made
      cases made
  | rename old new => exact absurd rfl (still old new)
  | mkdirTemp | create | copy | remove | removeAll =>
    simp only [answer] at found
    repeat' split at found
    all_goals
      simp only [Tree.node_put, Tree.node_drop] at found
      repeat' split at found
      all_goals first | exact found | cases found

@[simp] theorem handler_cwd (o : Op) (w : World) : (handler o w).2.cwd = w.cwd := rfl

@[simp] theorem handler_turns (o : Op) (w : World) : (handler o w).2.turns = w.turns.tail := rfl

end Effects

/-! ### What the answers say -/

section Answers

variable {w : World} {path dir start old new : List Char} {src : Source} {limit n : Nat} {e : OsErr} {kind : Kind}

theorem mkdirAll_ok (done : (handler (.mkdirAll path) w).1 = .ok ()) (loc : List Seg) :
    (handler (.mkdirAll path) w).2.disk.node loc = if loc <+: place w.cwd path then some .dir else w.disk.node loc := by
  simp only [handler, answer] at done ⊢
  cases failed : w.turn.fault with
  | some f => simp [failed] at done
  | none =>
    simp only [failed] at done
    rw [makeDirs_ok _ done]
    simp only [List.mem_inits]

theorem mkdirTemp_ok (done : (handler (.mkdirTemp dir start) w).1 = .ok path) :
    ∃ n, path = entryPath dir (start ++ digits n) ∧ w.disk.node (place w.cwd dir) = some .dir ∧
      w.disk.node (place w.cwd path) = none ∧
      ∀ loc, (handler (.mkdirTemp dir start) w).2.disk.node loc = if loc = place w.cwd path then some .dir else w.disk.node loc := by
  simp only [handler, answer] at done ⊢
  cases failed : w.turn.fault with
  | some f => simp [failed] at done
  | none =>
    simp only [failed] at done ⊢
    split at done
    · rename_i parent
      split at done
      · rename_i n drawn
        have free : w.disk.node (place w.cwd (entryPath dir (start ++ digits n))) = none := by
          simpa using List.find?_some drawn
        cases done
        refine ⟨n, rfl, by simpa [isDir] using parent, free, fun loc => ?_⟩
        rw [if_pos parent]
        exact Tree.node_put _ _ _ _
      · cases done
    · cases done

theorem mkdirTemp_error (done : (handler (.mkdirTemp dir start) w).1 = .error e) : (handler (.mkdirTemp dir start) w).2.disk = w.disk := by
  simp only [handler, answer] at done ⊢
  split at done
  · rfl
  · split
    · rename_i parent
      rw [if_pos parent] at done
      split at done
      · cases done
      · rfl
    · rfl

theorem stat_ok (done : (handler (.stat path) w).1 = .ok kind) :
    ∃ entry, w.disk.node (place w.cwd path) = some entry ∧ entry.kind = kind := by
  simp only [handler, answer] at done
  cases failed : w.turn.fault with
  | some f => simp [failed] at done
  | none =>
    simp only [failed] at done
    cases entry : w.disk.node (place w.cwd path) with
    | none => simp [entry] at done
    | some entry_ =>
      simp only [entry] at done
      exact ⟨entry_, rfl, Except.ok.inj done⟩

theorem stat_disk (path : List Char) (w : World) : (handler (.stat path) w).2.disk = w.disk := by
  simp only [handler, answer]
  split <;> rfl

/-- That something does not exist is not said of what is there. -/
theorem stat_missing (done : (handler (.stat path) w).1 = .error e) (said : e.notExist = true) :
    w.disk.node (place w.cwd path) = none := by
  simp only [handler, answer] at done
  cases failed : w.turn.fault with
  | some f =>
    simp only [failed] at done
    cases done
    cases said
  | none =>
    simp only [failed] at done
    cases entry : w.disk.node (place w.cwd path) with
    | none => rfl
    | some entry_ => simp [entry] at done

/-- Where the call itself does not fail, it says what is there. -/
theorem stat_answers (calm : w.turn.fault = none) {entry : Node Bytes} (found : w.disk.node (place w.cwd path) = some entry) :
    (handler (.stat path) w).1 = .ok entry.kind := by
  simp only [handler, answer, calm, found]

theorem openFile_disk (path : List Char) (w : World) : (handler (.openFile path) w).2.disk = w.disk := by
  simp only [handler, answer]
  split <;> rfl

theorem info_disk (path : List Char) (w : World) : (handler (.info path) w).2.disk = w.disk := by
  simp only [handler, answer]
  split <;> rfl

theorem create_ok (done : (handler (.create path) w).1 = .ok ()) (loc : List Seg) :
    (handler (.create path) w).2.disk.node loc = if loc = place w.cwd path then some (.file []) else w.disk.node loc := by
  simp only [handler, answer] at done ⊢
  cases failed : w.turn.fault with
  | some f => simp [failed] at done
  | none =>
    simp only [failed] at done ⊢
    split at done
    · rename_i parent
      rw [if_pos parent]
      split at done
      · exact Tree.node_put _ _ _ _
      · exact Tree.node_put _ _ _ _
      · cases done
    · cases done

theorem copy_ok (done : (handler (.copy path src limit) w).1 = .ok n) :
    n = ((held w.disk w.cwd src).take limit).length ∧
      ∀ loc, (handler (.copy path src limit) w).2.disk.node loc =
        if loc = place w.cwd path then some (.file ((held w.disk w.cwd src).take limit)) else w.disk.node loc := by
  simp only [handler, answer] at done ⊢
  split at done
  · exact ⟨(Except.ok.inj done).symm, fun loc => Tree.node_put _ _ _ _⟩
  · cases done
  · cases done

theorem remove_ok (done : (handler (.remove path) w).1 = .ok ()) (loc : List Seg) :
    (handler (.remove path) w).2.disk.node loc = if loc = place w.cwd path then none else w.disk.node loc := by
  simp only [handler, answer] at done ⊢
  split at done
  · rw [Tree.node_drop]
    simp
  · cases done
  · cases done

theorem remove_error (done : (handler (.remove path) w).1 = .error e) : (handler (.remove path) w).2.disk = w.disk := by
  simp only [handler, answer] at done ⊢
  split at done
  · cases done
  · rfl
  · rfl

theorem rename_error (done : (handler (.rename old new) w).1 = .error e) : (handler (.rename old new) w).2.disk = w.disk := by
  simp only [handler, answer] at done ⊢
  split at done
  · rfl
  · split
    · rfl
    · split
      · rfl
      · rename_i exists_ apart
        rw [if_neg exists_, if_neg apart] at done
        cases done

/-- Both places stay apart, and what was at the old one is at the new one. -/
theorem rename_ok (done : (handler (.rename old new) w).1 = .ok ()) (loc : List Seg) :
    (handler (.rename old new) w).2.disk.node loc =
      if place w.cwd new <+: loc then w.disk.node (place w.cwd old ++ loc.drop (place w.cwd new).length)
      else if place w.cwd old <+: loc then none else w.disk.node loc := by
  simp only [handler, answer] at done ⊢
  split at done
  · cases done
  · rename_i calm
    split at done
    · cases done
    · rename_i exists_
      split at done
      · cases done
      · rename_i apart
        have ahead : ¬ place w.cwd old <+: place w.cwd new := fun within => apart (.inl within)
        have behind : ¬ place w.cwd new <+: place w.cwd old := fun within => apart (.inr (.inl within))
        rw [if_neg exists_, if_neg apart]
        exact Tree.node_move behind ahead loc

/-- A directory can be put where nothing is, unless the call itself fails. -/
theorem rename_answers (calm : w.turn.fault = none) (is_dir : w.disk.node (place w.cwd old) = some .dir)
    (free : w.disk.node (place w.cwd new) = none) (parent : w.disk.node (place w.cwd new).dropLast = some .dir)
    (ahead : ¬ place w.cwd old <+: place w.cwd new) (behind : ¬ place w.cwd new <+: place w.cwd old) :
    (handler (.rename old new) w).1 = .ok () := by
  simp only [handler, answer, calm]
  rw [if_neg (by simp [is_dir, parent, isDir]), if_neg (by simp [ahead, behind, free, isDir])]

section Walks

variable {t : Disk} {root names : List Seg} {unread : List (List Seg)} {entries : List (List Seg × Kind)}

theorem mem_walked : (names, kind) ∈ walked t root ↔ ∃ entry, t.layer root names = some entry ∧ entry.kind = kind := by
  unfold walked
  rw [List.mem_filterMap]
  constructor
  · rintro ⟨other, member, mapped⟩
    obtain ⟨entry, found, same⟩ := Option.map_eq_some_iff.mp mapped
    cases same
    exact ⟨entry, found, rfl⟩
  · rintro ⟨entry, found, rfl⟩
    refine ⟨names, ?_, by rw [found]; rfl⟩
    rw [(List.perm_insertionSort _ _).mem_iff, Tree.mem_below, found]
    exact Option.some_ne_none _

theorem entry_of_visit (member : Visit.entry names kind ∈ visits entries unread) : (names, kind) ∈ entries := by
  unfold visits at member
  split at member
  · simp at member
  · obtain ⟨e, kept, listed⟩ := List.mem_flatMap.mp member
    rcases List.mem_cons.mp listed with same | later
    · cases same
      exact (List.mem_filter.mp kept).1
    · split at later
      · simp at later
      · cases later

/-- A walk without an error visits every entry. -/
theorem visit_of_entry (whole : ∀ names e, Visit.broken names e ∉ visits entries unread) (member : (names, kind) ∈ entries) :
    Visit.entry names kind ∈ visits entries unread := by
  have some_ : entries ≠ [] := List.ne_nil_of_mem member
  have listed (e : List Seg × Kind) (visit : Visit) (within : e ∈ entries)
      (kept : ∀ cut ∈ unread, ¬ (cut ∈ entries.map Prod.fst ∧ cut <+: e.1 ∧ cut ≠ e.1))
      (one : visit ∈ (.entry e.1 e.2 :: if e.1 ∈ unread then [.broken e.1 broken] else [] : List Visit)) :
      visit ∈ visits entries unread := by
    rw [visits, if_neg some_]
    refine List.mem_flatMap.mpr ⟨e, List.mem_filter.mpr ⟨within, List.all_eq_true.mpr fun cut skipped => ?_⟩, one⟩
    rw [decide_eq_false (kept cut skipped)]
    rfl
  -- the first directory on the way that cannot be read would have been told
  have read (cut : List Seg) (within : cut ∈ entries.map Prod.fst) : cut ∉ unread := by
    induction short : cut.length using Nat.strongRecOn generalizing cut with
    | ind n ih =>
      intro skipped
      obtain ⟨e, found, rfl⟩ := List.mem_map.mp within
      apply whole e.1 broken
      apply listed e _ found
      · rintro other missed ⟨entered, above, proper⟩
        have less : other.length < n := by
          refine short ▸ lt_of_le_of_ne above.length_le fun same => proper (above.eq_of_length same)
        exact ih _ less other entered rfl missed
      · simp [skipped]
  apply listed _ _ member
  · rintro cut skipped ⟨within, _⟩
    exact read cut within skipped
  · exact .head _

end Walks

end Answers

end Cronova.Files
