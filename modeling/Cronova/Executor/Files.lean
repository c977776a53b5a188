import Cronova.Files.Path
import Cronova.Model.RunDecoding
import Cronova.Parser.Identifier
import Cronova.Worker.Protocol

/-! The files of an attempt: `stateFile` and `exitFile` of the executor, the spool and the output of
the worker. All four are named by the ref with its slashes folded into underscores, which may occur
in the ids as well. -/

set_option autoImplicit false

namespace Cronova.Executor

open Model Files
open Text (split_last)
open Cronova.Parser (isID plain_of_isID plain_of_run starts_alphanum)
open Worker (sanitizeRef)

/-- An attempt, by its run, its task and its try. -/
structure AttemptKey where
  run : RunID
  task : TaskID
  try_ : Int

/-- The DAG and the task have ids that the parser accepts. -/
structure AttemptKey.Legal (a : AttemptKey) : Prop where
  dag : isID a.run.dag = true
  task : isID a.task = true

/-- `attemptRef`. -/
def attemptRef (a : AttemptKey) : String := a.run.text ++ "/" ++ a.task ++ "/" ++ toString a.try_

section Names

variable (dir workerDir : String) (ref : String)

/-- `stateFile`; its replacer is that of `sanitizeRef`. -/
def stateFile : List Char := joinPath [dir.toList, (sanitizeRef ref).toList ++ ".json".toList]

def exitFile : List Char := stateFile dir ref ++ ".exit".toList

/-- The base of the paths of `newTrack`. -/
def trackBase : List Char := joinPath [workerDir.toList, "spool".toList, (sanitizeRef ref).toList]

def spoolFile : List Char := trackBase workerDir ref ++ ".log".toList

def outFile : List Char := trackBase workerDir ref ++ ".out".toList

/-- The files of an attempt: two of its executor, two of its worker. -/
inductive FileKind where
  | state | exit | spool | out
  deriving DecidableEq

def attemptFile : FileKind → List Char
  | .state => stateFile dir ref
  | .exit => exitFile dir ref
  | .spool => spoolFile workerDir ref
  | .out => outFile workerDir ref

end Names

/-! ### The folded ref -/

section Folded

variable {a b : AttemptKey}

theorem toList_sanitizeRef (ref : String) : (sanitizeRef ref).toList = ref.toList.map fun c => if c = '/' then '_' else c :=
  String.toList_ofList

theorem fold_plain {text : List Char} (free : '/' ∉ text) : text.map (fun c => if c = '/' then '_' else c) = text := by
  conv => rhs; rw [← List.map_id text]
  apply List.map_congr_left
  intro c listed
  have other : c ≠ '/' := by
    rintro rfl
    exact free listed
  rw [if_neg other]
  rfl

theorem number_plain {n : Int} {c : Char} (mark : c = '/' ∨ c = '_') : c ∉ (toString n).toList := by
  intro listed
  rcases Text.mem_toString_int listed with ⟨low, digit⟩ | rfl
  · rcases mark with rfl | rfl
    · exact absurd low (by decide)
    · exact absurd digit (by decide)
  · rcases mark with wrong | wrong <;> cases wrong

/-- The run, the task and the try, with underscores between them. -/
def AttemptKey.folded (a : AttemptKey) : List Char := a.run.text.toList ++ '_' :: (a.task.toList ++ '_' :: (toString a.try_).toList)

theorem AttemptKey.Legal.folded (legal : a.Legal) : (sanitizeRef (attemptRef a)).toList = a.folded := by
  have run := fold_plain (plain_of_run legal.dag).1
  have task := fold_plain (plain_of_isID legal.task).1
  have number := fold_plain (number_plain (n := a.try_) (.inl rfl))
  rw [toList_sanitizeRef, attemptRef]
  simp only [String.toList_append, List.map_append, run, task, number]
  simp [AttemptKey.folded]

theorem AttemptKey.Legal.folded_free (legal : a.Legal) : '/' ∉ a.folded := by
  have run := (plain_of_run legal.dag).1
  have task := (plain_of_isID legal.task).1
  have number := number_plain (n := a.try_) (c := '/') (.inl rfl)
  simp only [AttemptKey.folded, List.mem_append, List.mem_cons]
  rintro (wrong | wrong | wrong | wrong | wrong)
  · exact run wrong
  · cases wrong
  · exact task wrong
  · cases wrong
  · exact number wrong

/-- A folded ref is the name of a file. -/
theorem AttemptKey.Legal.plain (legal : a.Legal) {extension : List Char} (free : '/' ∉ extension) : Files.Plain (a.folded ++ extension) := by
  have mark : '_' ∈ a.folded ++ extension := by simp [AttemptKey.folded]
  refine ⟨List.ne_nil_of_mem mark, fun same => ?_, fun same => ?_, ?_⟩
  · rw [same] at mark
    exact absurd mark (by decide)
  · rw [same] at mark
    exact absurd mark (by decide)
  · rw [List.mem_append]
    exact not_or.mpr ⟨legal.folded_free, free⟩

variable {dir workerDir : String}

theorem stateFile_eq_iff (legal : a.Legal) (legal' : b.Legal) :
    stateFile dir (attemptRef a) = stateFile dir (attemptRef b) ↔ a.folded = b.folded := by
  have free : '/' ∉ ".json".toList := by decide
  unfold stateFile
  rw [legal.folded, legal'.folded]
  constructor
  · intro same
    exact List.append_cancel_right (joinPath_injective [dir.toList] (legal.plain free) (legal'.plain free) same)
  · intro same
    rw [same]

theorem trackBase_eq_iff (legal : a.Legal) (legal' : b.Legal) :
    trackBase workerDir (attemptRef a) = trackBase workerDir (attemptRef b) ↔ a.folded = b.folded := by
  have plain := @AttemptKey.Legal.plain _ legal [] List.not_mem_nil
  have plain' := @AttemptKey.Legal.plain _ legal' [] List.not_mem_nil
  rw [List.append_nil] at plain plain'
  unfold trackBase
  rw [legal.folded, legal'.folded]
  constructor
  · exact joinPath_injective [workerDir.toList, "spool".toList] plain plain'
  · intro same
    rw [same]

/-- The last four characters of a file's name. -/
def FileKind.ending : FileKind → List Char
  | state => "json".toList
  | exit => "exit".toList
  | spool => ".log".toList
  | out => ".out".toList

theorem FileKind.length_ending : ∀ kind : FileKind, kind.ending.length = 4
  | state | exit | spool | out => rfl

theorem FileKind.ending_injective {kind other : FileKind} (same : kind.ending = other.ending) : kind = other := by
  cases kind <;> cases other <;> first
    | rfl
    | exact absurd same (by decide)

theorem render_ends (rooted : Bool) (segs : List Seg) (text ending : List Char) :
    ∃ front, render rooted (segs ++ [text ++ ending]) = front ++ ending := by
  obtain ⟨front, joined⟩ : ∃ front, Http.join (segs ++ [text ++ ending]) = front ++ ending := by
    cases segs with
    | nil => exact ⟨text, by simp⟩
    | cons seg segs =>
      refine ⟨Http.join (seg :: segs) ++ '/' :: text, ?_⟩
      rw [join_append_singleton _ (List.cons_ne_nil _ _)]
      simp
  unfold render
  split
  · exact ⟨'/' :: front, by rw [joined, List.cons_append]⟩
  · rw [if_neg (by simp)]
    exact ⟨front, joined⟩

theorem attemptFile_ends (legal : a.Legal) (kind : FileKind) :
    ∃ front, attemptFile dir workerDir (attemptRef a) kind = front ++ kind.ending := by
  cases kind with
  | state =>
    have plain := @AttemptKey.Legal.plain _ legal ".json".toList (by decide)
    have path := joinPath_plain [dir.toList] plain
    obtain ⟨front, ends⟩ := render_ends (isAbs (directory [dir.toList])) (elements (directory [dir.toList])) (a.folded ++ ['.']) "json".toList
    refine ⟨front, ?_⟩
    rw [List.append_assoc] at ends
    calc attemptFile dir workerDir (attemptRef a) .state = joinPath ([dir.toList] ++ [a.folded ++ ".json".toList]) := by
          rw [attemptFile, stateFile, legal.folded]
          rfl
      _ = _ := path
      _ = front ++ "json".toList := ends
  | exit => exact ⟨stateFile dir (attemptRef a) ++ ['.'], by simp [attemptFile, exitFile, FileKind.ending]⟩
  | spool => exact ⟨trackBase workerDir (attemptRef a), rfl⟩
  | out => exact ⟨trackBase workerDir (attemptRef a), rfl⟩

/-- Files of one kind have one name exactly if the refs fold to one text. -/
theorem attemptFile_eq_iff (legal : a.Legal) (legal' : b.Legal) (kind : FileKind) :
    attemptFile dir workerDir (attemptRef a) kind = attemptFile dir workerDir (attemptRef b) kind ↔ a.folded = b.folded := by
  cases kind with
  | state => exact stateFile_eq_iff legal legal'
  | exit => exact List.append_left_inj _ |>.trans (stateFile_eq_iff legal legal')
  | spool => exact List.append_left_inj _ |>.trans (trackBase_eq_iff legal legal')
  | out => exact List.append_left_inj _ |>.trans (trackBase_eq_iff legal legal')

/-- No file of one attempt is a file of the other. -/
def FilesApart (dir workerDir : String) (a b : AttemptKey) : Prop :=
  ∀ kind other, attemptFile dir workerDir (attemptRef a) kind ≠ attemptFile dir workerDir (attemptRef b) other

theorem filesApart_iff (legal : a.Legal) (legal' : b.Legal) : FilesApart dir workerDir a b ↔ a.folded ≠ b.folded := by
  constructor
  · intro apart same
    exact apart .state .state ((attemptFile_eq_iff legal legal' .state).mpr same)
  · intro apart kind other same
    obtain ⟨front, ends⟩ := @attemptFile_ends _ dir workerDir legal kind
    obtain ⟨front', ends'⟩ := @attemptFile_ends _ dir workerDir legal' other
    have endings := same
    rw [ends, ends'] at endings
    obtain rfl := FileKind.ending_injective (List.append_inj' endings (kind.length_ending.trans other.length_ending.symm)).2
    exact apart ((attemptFile_eq_iff legal legal' kind).mp same)

end Folded

/-! ### Refs that fold to one text -/

section Shadows

variable {a b : AttemptKey}

/-- The DAG of the other attempt continues the run id of this one, and the task of this one goes on
where that DAG ends, up to the task of the other. -/
def Shadows (a b : AttemptKey) : Prop :=
  a.try_ = b.try_ ∧ ∃ middle : List Char, b.run.dag.toList = a.run.text.toList ++ '_' :: middle ∧
    a.task.toList = middle ++ '_' :: '_' :: (b.run.suffix ++ '_' :: b.task.toList)

theorem Shadows.apart (shadows : Shadows a b) : a ≠ b := by
  rintro rfl
  obtain ⟨_, middle, dag, _⟩ := shadows
  have lengths := congrArg List.length dag
  rw [a.run.toList_text] at lengths
  simp at lengths

/-- Neither the words of run ids nor an underscore ends a run id. -/
theorem ends_apart (r : RunID) {front back : List Char} (ends : r.text.toList = front ++ back) :
    back ≠ ['_'] ∧ ∀ s : RunID, s.word ≠ some back := by
  obtain ⟨start, last, number, numeral⟩ := r.number_ends
  have whole : r.text.toList.getLast? = some last := by
    rw [r.toList_text_stem, number, ← List.cons_append, ← List.append_assoc, List.getLast?_append, List.getLast?_singleton]
    rfl
  constructor
  · rintro rfl
    rw [ends, List.getLast?_append, List.getLast?_singleton] at whole
    obtain rfl : '_' = last := by simpa using whole
    rcases numeral with ⟨_, digit⟩ | wrong
    · exact absurd digit (by decide)
    · cases wrong
  · intro s word
    rw [ends, List.getLast?_append] at whole
    have letter : ∀ c, back.getLast? = some c → 'a' ≤ c := by
      cases s with
      | logical => cases word
      | manual | backfill | event | sub =>
        obtain rfl := Option.some.inj word
        intro c same
        obtain rfl := Option.some.inj same
        decide
    cases word' : back.getLast? with
    | none =>
      obtain rfl := List.getLast?_eq_none_iff.mp word'
      cases s <;> simp [RunID.word] at word
    | some c =>
      rw [word', Option.some_or] at whole
      obtain rfl := Option.some.inj whole
      have small := letter c word'
      rcases numeral with ⟨_, digit⟩ | rfl
      · exact absurd (small.trans digit) (by decide)
      · exact absurd small (by decide)

/-- A run id that goes on after another one does so within its DAG. -/
theorem dag_continues {r s : RunID} {x : List Char} (starts : ∀ rest, x ≠ '_' :: rest)
    (longer : s.text.toList = r.text.toList ++ '_' :: x) :
    ∃ middle, s.dag.toList = r.text.toList ++ '_' :: middle ∧ x = middle ++ '_' :: '_' :: s.suffix := by
  have text : s.dag.toList ++ '_' :: '_' :: s.suffix = r.text.toList ++ '_' :: x := by
    rw [← longer, s.toList_text]
    simp
  rcases List.append_eq_append_iff.mp text with ⟨more, beyond, rest⟩ | ⟨more, beyond, rest⟩
  · -- the other id would end inside the words that follow the DAG
    exfalso
    match more, beyond, rest with
    | [], _, rest => exact starts s.suffix (List.cons.inj rest).2.symm
    | [c], beyond, rest =>
      obtain ⟨rfl, _⟩ := List.cons.inj rest
      exact (ends_apart r beyond).1 rfl
    | c :: d :: word, beyond, rest =>
      obtain ⟨rfl, rest'⟩ := List.cons.inj rest
      obtain ⟨rfl, suffix⟩ := List.cons.inj rest'
      rw [s.suffix_eq] at suffix
      cases form : s.word with
      | none =>
        rw [form, Option.elim_none] at suffix
        refine s.number_plain ?_
        rw [suffix]
        simp
      | some word' =>
        rw [form] at suffix
        obtain ⟨rfl, _⟩ := Text.split_first (s.word_plain word' form) s.number_plain suffix
        exact (@ends_apart r (s.dag.toList ++ ['_', '_']) _ (by simpa using beyond)).2 s form
  · match more, beyond, rest with
    | [], _, rest => exact absurd (List.cons.inj rest).2 (starts _)
    | c :: middle, beyond, rest =>
      obtain ⟨rfl, rest'⟩ := List.cons.inj rest
      exact ⟨middle, beyond, rest'⟩

theorem shadows_of_longer (legal : a.Legal) (tries : a.try_ = b.try_) {more : List Char} (some_ : more ≠ [])
    (run : b.run.text.toList = a.run.text.toList ++ more) (task : '_' :: a.task.toList = more ++ '_' :: b.task.toList) : Shadows a b := by
  obtain ⟨first, rest, chars, alphanum⟩ := starts_alphanum legal.task
  obtain ⟨c, x, rfl⟩ := List.exists_cons_of_ne_nil some_
  obtain ⟨rfl, task'⟩ := List.cons.inj task
  have starts : ∀ later, x ≠ '_' :: later := by
    rintro later rfl
    have head := chars.symm.trans task'
    obtain rfl : first = '_' := (List.cons.inj head).1
    exact absurd alphanum (by decide)
  obtain ⟨middle, dag, same⟩ := dag_continues starts run
  refine ⟨tries, middle, dag, ?_⟩
  rw [task', same]
  simp

theorem same_of_parts (tries : a.try_ = b.try_) (run : a.run.text.toList ++ [] = b.run.text.toList)
    (task : '_' :: a.task.toList = [] ++ '_' :: b.task.toList) : a = b := by
  rw [List.append_nil] at run
  have run := RunID.text_injective (String.toList_injective run)
  have task := String.toList_injective (List.cons.inj task).2
  cases a
  cases b
  simp_all

/-- Two refs fold to one text exactly if they are equal or one shadows the other. -/
theorem folded_eq_iff (legal : a.Legal) (legal' : b.Legal) : a.folded = b.folded ↔ a = b ∨ Shadows a b ∨ Shadows b a := by
  have shape (a : AttemptKey) : a.folded = (a.run.text.toList ++ '_' :: a.task.toList) ++ '_' :: (toString a.try_).toList := by
    simp [AttemptKey.folded]
  constructor
  · intro same
    rw [shape, shape] at same
    obtain ⟨names, tries⟩ := Text.split_last (number_plain (.inr rfl)) (number_plain (.inr rfl)) same
    have tries := Text.toString_int_injective tries
    rcases List.append_eq_append_iff.mp names with ⟨more, run, task⟩ | ⟨more, run, task⟩
    · by_cases none : more = []
      · subst none
        exact .inl (same_of_parts tries run.symm task)
      · exact .inr (.inl (shadows_of_longer legal tries none run task))
    · by_cases none : more = []
      · subst none
        exact .inl (same_of_parts tries.symm run.symm task).symm
      · exact .inr (.inr (shadows_of_longer legal' tries.symm none run task))
  · have shadowed {a b : AttemptKey} (shadows : Shadows a b) : a.folded = b.folded := by
      obtain ⟨tries, middle, dag, task⟩ := shadows
      rw [AttemptKey.folded, AttemptKey.folded, task, b.run.toList_text, String.toList_append, dag, tries]
      simp
    rintro (rfl | first | second)
    · rfl
    · exact shadowed first
    · exact (shadowed second).symm

/-- Attempts have files of their own exactly if neither shadows the other. -/
theorem attempt_files_apart (dir workerDir : String) (legal : a.Legal) (legal' : b.Legal) :
    (a ≠ b → FilesApart dir workerDir a b) ↔ ¬ (Shadows a b ∨ Shadows b a) := by
  rw [filesApart_iff legal legal', ne_eq a.folded, folded_eq_iff legal legal']
  constructor
  · intro apart shadows
    have other : a ≠ b := shadows.elim (fun first => first.apart) fun second => second.apart.symm
    exact apart other (.inr shadows)
  · rintro clear other (rfl | shadows)
    · exact other rfl
    · exact clear shadows

/-- A second try has files of its own. -/
theorem second_try_apart : FilesApart "/var/lib/cronova" "/var/lib/worker" ⟨.event "etl" 1, "load", 1⟩ ⟨.event "etl" 1, "load", 2⟩ := by
  have legal (n : Int) : (⟨.event "etl" 1, "load", n⟩ : AttemptKey).Legal := ⟨show isID "etl" = true by decide +kernel, show isID "load" = true by decide +kernel⟩
  have apart := attempt_files_apart "/var/lib/cronova" "/var/lib/worker" (legal 1) (legal 2)
  refine apart.mpr ?_ fun same => absurd (congrArg AttemptKey.try_ same) (by decide)
  rintro (⟨tries, _⟩ | ⟨tries, _⟩)
  · exact absurd tries (by decide)
  · exact absurd tries (by decide)

/-- The task of the second one is the end of a task id of the first one. -/
def firstAttempt : AttemptKey := ⟨.event "etl" 1, "x__event_2_load", 1⟩

def secondAttempt : AttemptKey := ⟨.event "etl__event_1_x" 2, "load", 1⟩

/-- Attempts of two DAGs share their files. -/
theorem attempts_share_files : firstAttempt.Legal ∧ secondAttempt.Legal ∧ firstAttempt ≠ secondAttempt ∧
    ¬ FilesApart "/var/lib/cronova" "/var/lib/worker" firstAttempt secondAttempt := by
  have legal : firstAttempt.Legal := ⟨by decide +kernel, by decide +kernel⟩
  have legal' : secondAttempt.Legal := ⟨by decide +kernel, by decide +kernel⟩
  refine ⟨legal, legal', fun same => absurd (congrArg AttemptKey.task same) (by decide), ?_⟩
  rw [filesApart_iff legal legal', not_not]
  decide +kernel

end Shadows

end Cronova.Executor
