import Cronova.Executor.Runner
import Cronova.Process.Reach
import Mathlib.Data.List.Basic

/-! Launches, cancels, probes and exits on one runner, in any order.

`Launch` reserves the ref, works without the lock, starts the process and hands it to `wait`; one
thread stands for both. The state files are left out: nothing here reads them.
-/

set_option autoImplicit false

namespace Cronova.Executor

open Process

/-- What `Launch` reads of a `Spec`. -/
structure Spec where
  taskRunID : Ref
  dir : String := ""
  timeout : Int := 0

/-- How far a launch is. -/
inductive Phase where
  | entering
  | opening
  | staging
  | starting
  | attaching (pid : Nat)
  | watching (pid : Nat)
  /-- The timeout has killed the group. -/
  | reaping (pid : Nat)
  | finishing (pid : Nat) (code : Int)
  | done
  | known
  | failed

structure Launched where
  spec : Spec
  phase : Phase

structure Proc where
  ref : Ref
  exited : Option Int

/-- What can be observed; a sweep with the refs that it evicts. -/
inductive Event where
  | started (ref : Ref)
  | swept (gone : Ref → Bool)
  | failed (ref : Ref)
  | probed (ref : Ref) (status : Status)

structure State where
  tasks : Registry
  launches : List Launched
  /-- By process id; the group of a process has the next number, as group 0 is none. -/
  procs : List Proc
  /-- Groups that a `Cancel` is about to kill. -/
  kills : List Nat
  /-- The newest event first. -/
  history : List Event

def State.init : State := ⟨fun _ => none, [], [], [], []⟩

inductive Label where
  | launch (spec : Spec)
  /-- The launch goes on; `ok` is how its surroundings answer. -/
  | act (tid : Nat) (now : Int) (ok : Bool)
  | cancel (ref : Ref)
  | kill (i : Nat)
  | probe (ref : Ref)
  | exit (pid : Nat) (code : Int)

namespace State

variable (s : State)

def go (tid : Nat) (spec : Spec) (phase : Phase) : State := { s with launches := s.launches.set tid ⟨spec, phase⟩ }

def note (event : Event) : State := { s with history := event :: s.history }

def sweep (now : Int) : State :=
  let swept := sweepFinishedLocked s.tasks now
  { s with tasks := swept, history := .swept (fun ref => decide (swept ref ≠ s.tasks ref)) :: s.history }

/-- The process ends, unless it has ended. -/
def exit (pid : Nat) (code : Int) : State := { s with procs := s.procs.modify pid fun p => { p with exited := p.exited.or (some code) } }

/-- A failure of `Launch` after it has reserved the ref. -/
def fail (tid : Nat) (spec : Spec) : State :=
  { s.go tid spec .failed with tasks := forget s.tasks spec.taskRunID, history := .failed spec.taskRunID :: s.history }

/-- The first critical section. -/
def enter (tid : Nat) (now : Int) (spec : Spec) : State :=
  if spec.taskRunID = "" then (s.go tid spec .failed).note (.failed "")
  else
    let s := s.sweep now
    match reserve s.tasks spec.taskRunID tid with
    | none => s.go tid spec .known
    | some tasks => { s.go tid spec .opening with tasks }

def start (tid : Nat) (spec : Spec) : State :=
  { s.go tid spec (.attaching s.procs.length) with
    procs := s.procs ++ [⟨spec.taskRunID, none⟩]
    history := .started spec.taskRunID :: s.history }

def attach (tid : Nat) (spec : Spec) (pid : Nat) : State :=
  { s.go tid spec (.watching pid) with tasks := Executor.attach s.tasks spec.taskRunID tid (pid + 1) }

def finish (tid : Nat) (now : Int) (spec : Spec) (code : Int) : State :=
  { s.go tid spec .done with tasks := Executor.finish s.tasks spec.taskRunID code now }

/-- How the process ended. -/
def ended (pid : Nat) : Option Int := s.procs[pid]?.bind (·.exited)

def act (tid : Nat) (now : Int) (ok : Bool) : Option State :=
  match s.launches[tid]? with
  | none => none
  | some ⟨spec, phase⟩ =>
    match phase with
    | .entering => some (s.enter tid now spec)
    | .opening => some (if ok then s.go tid spec .staging else s.fail tid spec)
    | .staging => some (if ok || decide (spec.dir = "") then s.go tid spec .starting else s.fail tid spec)
    | .starting => some (if ok then s.start tid spec else s.fail tid spec)
    | .attaching pid => some (s.attach tid spec pid)
    | .watching pid =>
      if ok then (s.ended pid).map fun code => s.go tid spec (.finishing pid code)
      else if spec.timeout > 0 then some ((s.exit pid (-1)).go tid spec (.reaping pid))
      else none
    | .reaping pid => (s.ended pid).map fun _ => s.go tid spec (.finishing pid TimeoutExitCode)
    | .finishing _ code => some (s.finish tid now spec code)
    | .done | .known | .failed => none

def step : Label → Option State
  | .launch spec => some { s with launches := s.launches ++ [⟨spec, .entering⟩] }
  | .act tid now ok => s.act tid now ok
  | .cancel ref => some (match cancel s.tasks ref with
    | some pgid => { s with kills := s.kills ++ [pgid] }
    | none => s)
  | .kill i => s.kills[i]?.map fun pgid => s.exit (pgid - 1) (-1)
  | .probe ref => some (s.note (.probed ref (probe s.tasks ref)))
  | .exit pid code => some (s.exit pid code)

end State

/-! ### The history of a ref -/

def Event.evicts (ref : Ref) : Event → Bool
  | .swept gone => gone ref
  | _ => false

def Event.starts (ref : Ref) : Event → Bool
  | .started other => other = ref
  | _ => false

/-- What has happened since the ref was last evicted. -/
def since (ref : Ref) (history : List Event) : List Event := history.takeWhile (!·.evicts ref)

/-- The ref is never seen running after it was seen exited. -/
def NeverBack (ref : Ref) (history : List Event) : Prop :=
  history.Pairwise fun later earlier => ∀ code, later = .probed ref .running → earlier ≠ .probed ref (.exited code)

end Cronova.Executor
