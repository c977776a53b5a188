import Cronova.Executor.Runner
import Cronova.Process.Reach
import Cronova.Text.Trim
import Mathlib.Data.List.Perm.Basic

/-! A restart of the executor with a state directory (`internal/executor/state.go`).

An attempt leaves two files: the record that `Launch` saves once the process has been started, and
the exit code that the shell around the command writes. `os.WriteFile` and the redirection of the
shell truncate a file before they write it. Process group ids are not used again. The executor dies
before `wait` has stored anything.
-/

set_option autoImplicit false

namespace Cronova.Executor.Restart

open Process Text

/-- The exit status of a shell. -/
abbrev Code := Fin 256

/-- How far the shell around a command is. -/
inductive Wrapper where
  | running
  /-- The command has ended and the exit file is open. -/
  | opened (code : Code)
  | recorded (code : Code)
  /-- No process of the group is left; the code that was recorded. -/
  | gone (code : Option Code)
  deriving DecidableEq

def Wrapper.code? : Wrapper → Option Code
  | .recorded code => some code
  | .gone code => code
  | _ => none

structure Group where
  ref : Ref
  wrapper : Wrapper
  deriving DecidableEq

/-- What `RecoverState` reads of an `attemptState`. -/
structure AttemptState where
  ref : Ref
  pgid : Nat
  finished : Bool := false
  exitCode : Int := 0
  deriving DecidableEq

/-- A record; it is torn between its truncation and its write. -/
inductive Record where
  | torn
  | whole (st : AttemptState)
  deriving DecidableEq

/-- `Launch` after the start of the process. -/
inductive Saving where
  | started (pgid : Nat)
  | opened (pgid : Nat)
  deriving DecidableEq

/-- Where `RecoverState` is in the turn of its loop. -/
inductive Scan where
  | head
  | checking (st : AttemptState)
  | locking (st : AttemptState)
  | saving (st : AttemptState)
  | writing (st : AttemptState)
  deriving DecidableEq

/-- `watchAdopted`. -/
inductive Watch where
  | polling (pgid : Nat)
  | reading (pgid : Nat)
  | storing (pgid : Nat) (code : Int)
  | saving (pgid : Nat) (code : Int)
  | writing (pgid : Nat) (code : Int)
  deriving DecidableEq

inductive Mode where
  | up
  | recovering (todo : List Ref) (scan : Scan)
  | serving
  deriving DecidableEq

structure World where
  /-- The group at an index has the next number as its id. -/
  groups : List Group := []
  records : Ref → Option Record := fun _ => none
  sidecars : Ref → Option String := fun _ => none
  launches : Ref → Option Saving := fun _ => none
  mode : Mode := .up
  tasks : Registry := fun _ => none
  watchers : Ref → Option Watch := fun _ => none

/-- What the shell does next. -/
inductive Act where
  | ends (code : Code)
  | writes
  | exits
  | dies
  deriving DecidableEq

inductive Label where
  /-- `cmd.Start` of a launch. -/
  | start (ref : Ref)
  | save (ref : Ref)
  | shell (i : Nat) (act : Act)
  /-- The executor dies and starts again; the directory is listed in some order. -/
  | crash (entries : List Ref)
  | recover (now : Int)
  | watch (ref : Ref) (now : Int)

/-- `fmt.Sscanf` of a decimal number that has no sign. -/
def scanDecimal (text : List Char) : Option Int :=
  match text.takeWhile Char.isDigit with
  | [] => none
  | digits => some (digits.foldl (fun n c => 10 * n + (c.toNat - 48)) 0)

def readExitFile (file : Option String) : Option Int := file.bind fun text => scanDecimal (trimSpace text).toList

def World.init : World := {}

namespace World

variable (w : World)

def processGroupAlive (pgid : Nat) : Bool :=
  decide (pgid > 0) && w.groups[pgid - 1]?.any fun g => match g.wrapper with
    | .gone _ => false
    | _ => true

def setRecord (ref : Ref) (record : Option Record) : World := { w with records := Function.update w.records ref record }

def setTask (ref : Ref) (t : ProcTask) : World := { w with tasks := Function.update w.tasks ref (some t) }

def setWatch (ref : Ref) (watch : Option Watch) : World := { w with watchers := Function.update w.watchers ref watch }

def setLaunch (ref : Ref) (saving : Option Saving) : World := { w with launches := Function.update w.launches ref saving }

def start (ref : Ref) : Option World :=
  if w.mode = .up ∧ ∀ g ∈ w.groups, g.ref ≠ ref then
    some { w.setLaunch ref (some (.started (w.groups.length + 1))) with groups := w.groups ++ [⟨ref, .running⟩] }
  else none

/-- `saveState` of a launch. -/
def save (ref : Ref) : Option World :=
  match w.launches ref with
  | some (.started pgid) => some ((w.setLaunch ref (some (.opened pgid))).setRecord ref (some .torn))
  | some (.opened pgid) => some ((w.setLaunch ref none).setRecord ref (some (.whole { ref, pgid })))
  | none => none

def become (i : Nat) (g : Group) (wrapper : Wrapper) : World := { w with groups := w.groups.set i { g with wrapper } }

def setSidecar (ref : Ref) (text : String) : World := { w with sidecars := Function.update w.sidecars ref (some text) }

def shell (i : Nat) (act : Act) : Option World :=
  match w.groups[i]? with
  | none => none
  | some g =>
    match act, g.wrapper with
    | .ends code, .running => some ((w.become i g (.opened code)).setSidecar g.ref "")
    | .writes, .opened code => some ((w.become i g (.recorded code)).setSidecar g.ref (toString code.val))
    | .exits, .recorded code => some (w.become i g (.gone (some code)))
    | .dies, wrapper => some (w.become i g (.gone wrapper.code?))
    | _, _ => none

/-- What is left of the executor, and what `os.ReadDir` lists. -/
def crash (entries : List Ref) : Option World :=
  if w.mode = .up ∧ entries.Perm ((w.groups.map (·.ref)).filter fun ref => w.records ref ≠ none) then
    some { w with launches := fun _ => none, mode := .recovering entries .head }
  else none

/-- `RecoverState` goes on. -/
def recover (now : Int) : Option World :=
  match w.mode with
  | .recovering [] .head => some { w with mode := .serving }
  | .recovering (ref :: todo) .head =>
    match w.records ref with
    | some (.whole st) => some { w with mode := .recovering todo (if st.finished then .locking st else .checking st) }
    | some .torn => some { w.setRecord ref none with mode := .recovering todo .head }
    | none => some { w with mode := .recovering todo .head }
  | .recovering todo (.checking st) =>
    match readExitFile (w.sidecars st.ref) with
    | some code => some { w with mode := .recovering todo (.locking { st with finished := true, exitCode := code }) }
    | none => some { w with mode := .recovering todo (.locking st) }
  | .recovering todo (.locking st) =>
    if w.tasks st.ref ≠ none then some { w with mode := .recovering todo .head }
    else
      let entry : ProcTask := { owner := 0, pgid := st.pgid }
      let rest : World := { w with mode := .recovering todo (.saving st) }
      if st.finished then some (rest.setTask st.ref { entry with finished := true, exitCode := st.exitCode, finishedAt := now })
      else if w.processGroupAlive st.pgid then some ((rest.setTask st.ref entry).setWatch st.ref (some (.polling st.pgid)))
      else some (rest.setTask st.ref { entry with finished := true, exitCode := -1, finishedAt := now })
  | .recovering todo (.saving st) =>
    let st := match w.tasks st.ref with
      | some t => { st with finished := t.finished, exitCode := t.exitCode }
      | none => st
    some { w.setRecord st.ref (some .torn) with mode := .recovering todo (.writing st) }
  | .recovering todo (.writing st) => some { w.setRecord st.ref (some (.whole st)) with mode := .recovering todo .head }
  | .up | .serving => none

def watch (ref : Ref) (now : Int) : Option World :=
  match w.watchers ref with
  | none => none
  | some (.polling pgid) => if w.processGroupAlive pgid then some w else some (w.setWatch ref (some (.reading pgid)))
  | some (.reading pgid) => some (w.setWatch ref (some (.storing pgid ((readExitFile (w.sidecars ref)).getD (-1)))))
  | some (.storing pgid code) =>
    let rest := w.setWatch ref (some (.saving pgid code))
    match w.tasks ref with
    | some t => some (if t.finished then rest else rest.setTask ref { t with finished := true, exitCode := code, finishedAt := now })
    | none => some rest
  | some (.saving pgid code) => some ((w.setWatch ref (some (.writing pgid code))).setRecord ref (some .torn))
  | some (.writing pgid code) => some ((w.setWatch ref none).setRecord ref (some (.whole { ref, pgid, finished := true, exitCode := code })))

def step : Label → Option World
  | .start ref => w.start ref
  | .save ref => w.save ref
  | .shell i act => w.shell i act
  | .crash entries => w.crash entries
  | .recover now => w.recover now
  | .watch ref now => w.watch ref now

end World

/-! ### What is asked of the restarted executor -/

/-- The process of the ref was started. -/
def World.Started (w : World) (ref : Ref) : Prop := ∃ g ∈ w.groups, g.ref = ref

/-- The shell of the ref has recorded the code. -/
def World.Recorded (w : World) (ref : Ref) (code : Code) : Prop := ∃ g ∈ w.groups, g.ref = ref ∧ g.wrapper.code? = some code

/-- The restarted executor knows every ref whose process was started, and answers no code but the one
that was recorded. -/
structure Honest (w : World) : Prop where
  known : w.mode = .serving → ∀ ref, w.Started ref → probe w.tasks ref ≠ .unknown
  code : w.mode ≠ .up → ∀ ref code answer, w.Recorded ref code → probe w.tasks ref = .exited answer → answer = code

/-- The executor does not die between the start of a process and the end of `saveState`, and where
`RecoverState` has read no code and finds the group gone, no code has been recorded meanwhile. -/
def World.calm (w : World) : Label → Bool
  | .crash _ => w.groups.all fun g => w.launches g.ref = none
  | .recover _ => match w.mode with
    | .recovering _ (.locking st) => st.finished || w.processGroupAlive st.pgid || readExitFile (w.sidecars st.ref) = none
    | _ => true
  | _ => true

def Calm (w : World) (label : Label) : Prop := w.calm label = true

instance (w : World) (label : Label) : Decidable (Calm w label) := inferInstanceAs (Decidable (_ = true))

end Cronova.Executor.Restart
