import Mathlib.Data.List.Basic

/-! The lifecycle states of runs and task instances and the trigger rules
(`internal/model/model.go`, `internal/model/state.go`). -/

set_option autoImplicit false

namespace Cronova.Model

inductive RunState where
  | queued | running | success | failed | cancelled | timedOut
  deriving Repr, DecidableEq

namespace RunState

/-- `RunState.IsTerminal`: no further scheduling. -/
def isTerminal : RunState → Bool
  | success | failed | cancelled | timedOut => true
  | queued | running => false

/-- The rows that `state IN ('queued','running')` selects. -/
def isActive : RunState → Bool
  | queued | running => true
  | _ => false

@[simp] theorem not_isTerminal (s : RunState) : (!s.isTerminal) = s.isActive := by cases s <;> rfl

theorem isActive_iff (s : RunState) : s.isActive = true ↔ s = queued ∨ s = running := by cases s <;> simp [isActive]

end RunState

/-- `LegalPriorRunStates`: the states a run may move to `target` from. -/
def legalPriorRunStates : (target : RunState) → List RunState
  | .running => [.queued, .success, .failed, .cancelled, .timedOut]
  | .success | .failed => [.queued, .running, .success, .failed]
  | .cancelled => [.queued, .running]
  | .timedOut => [.running]
  | .queued => []

inductive TaskState where
  | scheduled | queued | running | success | failed | upForRetry | upstreamFailed | skipped | cancelled | timedOut
  deriving Repr, DecidableEq

namespace TaskState

/-- `TaskState.IsTerminal`: no further transitions. -/
def isTerminal : TaskState → Bool
  | success | failed | upstreamFailed | skipped | cancelled | timedOut => true
  | _ => false

/-- The states that the counters of `EvalTriggerRule` call a failure. -/
def isFailure : TaskState → Bool
  | failed | upstreamFailed | timedOut | cancelled => true
  | _ => false

/-- A terminal state falls under exactly one of the three counters of `EvalTriggerRule`. -/
theorem terminal_cases {s : TaskState} (terminal : s.isTerminal = true) :
    s = success ∨ s.isFailure = true ∨ s = skipped := by
  cases s <;> simp_all [isTerminal, isFailure]

/-- An attempt is in flight or a retry is due: the run is not waiting for a trigger rule. -/
def isPending : TaskState → Bool
  | queued | running | upForRetry => true
  | _ => false

theorem scheduled_or_terminal {s : TaskState} (quiet : s.isPending = false) :
    s = scheduled ∨ s.isTerminal = true := by
  cases s <;> simp_all [isTerminal, isPending]

end TaskState

inductive TriggerRule where
  | allSuccess | allDone | oneSuccess | oneFailed | allFailed | noneFailed
  deriving Repr, DecidableEq

/-- What a trigger rule says about a task, given the states of its dependencies. -/
structure Gate where
  ready : Bool
  blocked : Bool
  deriving Repr, DecidableEq

/-- The counters of `EvalTriggerRule`. -/
structure Tally where
  n : Nat
  succ : Nat
  fail : Nat
  skip : Nat
  done : Nat

def tally (deps : List (Option TaskState)) : Tally where
  n := deps.length
  succ := deps.countP (· == some .success)
  fail := deps.countP (fun s => s.any (·.isFailure))
  skip := deps.countP (· == some .skipped)
  done := deps.countP (fun s => s.any (·.isTerminal))

def Tally.gate (c : Tally) : TriggerRule → Gate
  | .allDone => ⟨c.done = c.n, false⟩
  | .oneSuccess => ⟨c.succ ≥ 1, c.done = c.n && c.succ = 0⟩
  | .oneFailed => ⟨c.fail ≥ 1, c.done = c.n && c.fail = 0⟩
  | .allFailed => ⟨c.done = c.n && c.fail = c.n, c.succ > 0 || c.skip > 0⟩
  | .noneFailed => ⟨c.done = c.n && c.fail = 0, c.fail > 0⟩
  | .allSuccess => ⟨c.succ = c.n, c.fail > 0 || c.skip > 0⟩

/-- `EvalTriggerRule`. A dependency that is not expanded yet has no state. -/
def evalTriggerRule (rule : TriggerRule) (deps : List (Option TaskState)) : Gate :=
  if deps.length = 0 then ⟨true, false⟩ else (tally deps).gate rule

section Settled

variable {deps : List (Option TaskState)}

/-- When every dependency has finished, the three counters add up to the number of dependencies. -/
theorem tally_settled (finished : ∀ d ∈ deps, d.any (·.isTerminal) = true) :
    (tally deps).succ + (tally deps).fail + (tally deps).skip = (tally deps).n := by
  induction deps with
  | nil => rfl
  | cons d deps ih =>
    obtain ⟨head, tail⟩ := List.forall_mem_cons.mp finished
    have rest := ih tail
    obtain _ | s := d
    · simp at head
    · simp only [tally] at rest ⊢
      rcases TaskState.terminal_cases (by simpa using head) with rfl | failure | rfl
      · simp [show TaskState.success.isFailure = false from rfl]; omega
      · have other : s ≠ .success ∧ s ≠ .skipped := by cases s <;> simp_all [TaskState.isFailure]
        simp [failure, other.1, other.2]; omega
      · simp [show TaskState.skipped.isFailure = false from rfl]; omega

theorem Tally.gate_settled {c : Tally} (rule : TriggerRule) (_nonempty : 0 < c.n) (done : c.done = c.n)
    (sum : c.succ + c.fail + c.skip = c.n) : (c.gate rule).ready = true ∨ (c.gate rule).blocked = true := by
  cases rule <;> simp [Tally.gate, done] <;> omega

/-- A task whose dependencies have all finished is ready or blocked: no rule leaves it waiting. -/
theorem evalTriggerRule_settled (rule : TriggerRule) (finished : ∀ d ∈ deps, d.any (·.isTerminal) = true) :
    (evalTriggerRule rule deps).ready = true ∨ (evalTriggerRule rule deps).blocked = true := by
  unfold evalTriggerRule
  split
  · exact .inl rfl
  · rename_i nonempty
    exact Tally.gate_settled rule (Nat.pos_of_ne_zero nonempty) (List.countP_eq_length.mpr finished)
      (tally_settled finished)

end Settled

end Cronova.Model
