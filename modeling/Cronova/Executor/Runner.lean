import Mathlib.Logic.Function.Basic
import Mathlib.Data.Option.Basic

/-! The registry of `internal/executor/runner.go`: what each critical section does to it.

The map holds pointers. An entry carries the launch that allocated it, and a write through a pointer
is a write to the entry of that launch; once the map has lost the entry, nothing can see the write.
-/

set_option autoImplicit false

namespace Cronova.Executor

abbrev Ref := String

/-- `finishedTaskTTL`, in nanoseconds. -/
def finishedTaskTTL : Int := 3600 * 1000000000

def TimeoutExitCode : Int := 124

structure ProcTask where
  owner : Nat
  cmd : Bool := false
  pgid : Nat := 0
  finished : Bool := false
  exitCode : Int := 0
  finishedAt : Int := 0
  deriving DecidableEq

/-- `r.tasks`. -/
abbrev Registry := Ref → Option ProcTask

/-- An answer of `Probe`. -/
inductive Status where
  | unknown
  | running
  | exited (code : Int)
  deriving DecidableEq

section Sections

variable (tasks : Registry) (ref : Ref)

/-- The result of a task has outlived the TTL. -/
def ProcTask.stale (now : Int) (t : ProcTask) : Bool := t.finished && decide (now - t.finishedAt > finishedTaskTTL)

def sweepFinishedLocked (now : Int) : Registry := fun ref => (tasks ref).filter fun t => !t.stale now

/-- `Launch` takes the ref, unless it is known. -/
def reserve (owner : Nat) : Option Registry := if tasks ref = none then some (Function.update tasks ref (some { owner })) else none

def forget : Registry := Function.update tasks ref none

/-- A write of `Launch` through its pointer. -/
def attach (owner pgid : Nat) : Registry :=
  Function.update tasks ref ((tasks ref).map fun t => if t.owner = owner then { t with cmd := true, pgid } else t)

/-- What `wait` stores. -/
def finish (code now : Int) : Registry :=
  Function.update tasks ref ((tasks ref).map fun t => { t with finished := true, exitCode := code, finishedAt := now })

def probe : Status :=
  match tasks ref with
  | none => .unknown
  | some t => if t.finished then .exited t.exitCode else .running

/-- The process group that `Cancel` kills. -/
def cancel : Option Nat := (tasks ref).bind fun t => if t.cmd || decide (t.pgid > 0) then some t.pgid else none

end Sections

section Lemmas

variable {tasks rest : Registry} {ref : Ref} {t : ProcTask} {owner : Nat}

theorem sweep_eq_some {now : Int} : sweepFinishedLocked tasks now ref = some t ↔ tasks ref = some t ∧ t.stale now = false := by
  simp [sweepFinishedLocked, Option.filter_eq_some_iff]

/-- Only entries that are finished are swept. -/
theorem sweep_keeps {now : Int} (known : tasks ref = some t) (unfinished : t.finished = false) :
    sweepFinishedLocked tasks now ref = some t := by
  rw [sweep_eq_some]
  exact ⟨known, by simp [ProcTask.stale, unfinished]⟩

theorem reserve_eq_some : reserve tasks ref owner = some rest ↔
    tasks ref = none ∧ rest = Function.update tasks ref (some { owner }) := by
  unfold reserve
  split <;> simp_all [eq_comm]

theorem reserve_eq_none : reserve tasks ref owner = none ↔ ∃ t, tasks ref = some t := by
  unfold reserve
  split
  · simp_all
  · rename_i known
    simp [Option.ne_none_iff_exists'.mp known]

end Lemmas

end Cronova.Executor
