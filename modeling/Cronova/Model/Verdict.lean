import Cronova.Model.State
import Mathlib.Data.List.Forall2

/-! What a trigger rule has decided it never takes back.

The counters of `EvalTriggerRule` only grow while the dependencies of a task finish. A rule
reads them so that a verdict on partial information is the verdict on any completion of it. -/

set_option autoImplicit false

namespace Cronova.Model

/-- The dependency has finished; one that is not expanded yet has not. -/
def finished (dep : Option TaskState) : Bool := dep.any (·.isTerminal)

/-- One entry is what it was, or it has finished since. -/
def Advances (before after : Option TaskState) : Prop :=
  after = before ∨ (finished before = false ∧ finished after = true)

/-- Some of the dependencies that had not finished have finished since. -/
def Resolves (deps later : List (Option TaskState)) : Prop := List.Forall₂ Advances deps later

section Counters

variable {deps later : List (Option TaskState)}

/-- The counters of the list are those of its tail, and one more for its head. -/
theorem tally_cons (d : Option TaskState) (deps : List (Option TaskState)) :
    tally (d :: deps) = ⟨(tally deps).n + 1,
      (tally deps).succ + if d == some .success then 1 else 0,
      (tally deps).fail + if d.any (·.isFailure) then 1 else 0,
      (tally deps).skip + if d == some .skipped then 1 else 0,
      (tally deps).done + if finished d then 1 else 0⟩ := by
  simp only [tally, List.length_cons, List.countP_cons]
  rfl

/-- What one entry adds to the three counters, it adds to the number of those that have finished. -/
theorem counted_once (d : Option TaskState) :
    (if d == some .success then 1 else 0) + (if d.any (·.isFailure) then 1 else 0) + (if d == some .skipped then 1 else 0) =
      if finished d then 1 else 0 := by
  cases d with
  | none => rfl
  | some s => cases s <;> rfl

/-- Every finished dependency is counted under one of three heads. -/
theorem tally_done (deps : List (Option TaskState)) :
    (tally deps).succ + (tally deps).fail + (tally deps).skip = (tally deps).done := by
  induction deps with
  | nil => rfl
  | cons d deps ih =>
    have once := counted_once d
    simp only [tally_cons]
    omega

theorem tally_done_le (deps : List (Option TaskState)) : (tally deps).done ≤ (tally deps).n := List.countP_le_length

theorem tally_done_eq : (tally deps).done = (tally deps).n ↔ ∀ d ∈ deps, finished d = true := List.countP_eq_length

/-- One counter grows while dependencies finish, if it counts finished entries only. -/
theorem countP_resolves {p : Option TaskState → Bool} (counts : ∀ d, p d = true → finished d = true)
    (resolves : Resolves deps later) : deps.countP p ≤ later.countP p := by
  induction resolves with
  | nil => exact Nat.le_refl _
  | @cons before after deps later advances _ ih =>
    rw [List.countP_cons, List.countP_cons]
    have head : (if p before = true then 1 else 0) ≤ if p after = true then 1 else 0 := by
      rcases advances with rfl | ⟨open_, _⟩
      · exact Nat.le_refl _
      · have none : p before ≠ true := fun counted => by
          rw [counts before counted] at open_
          cases open_
        rw [if_neg none]
        exact Nat.zero_le _
    omega

theorem success_finished (d : Option TaskState) (counted : (d == some .success) = true) : finished d = true := by
  rw [beq_iff_eq.mp counted]
  rfl

theorem failure_finished (d : Option TaskState) (counted : d.any (·.isFailure) = true) : finished d = true := by
  cases d with
  | none => cases counted
  | some s =>
    cases s with
    | failed | upstreamFailed | cancelled | timedOut => rfl
    | _ => cases counted

theorem skipped_finished (d : Option TaskState) (counted : (d == some .skipped) = true) : finished d = true := by
  rw [beq_iff_eq.mp counted]
  rfl

/-- When every entry has finished, nothing is left to change. -/
theorem Resolves.eq_of_finished (resolves : Resolves deps later) (all : ∀ d ∈ deps, finished d = true) : later = deps := by
  induction resolves with
  | nil => rfl
  | cons advances _ ih =>
    obtain ⟨head, tail⟩ := List.forall_mem_cons.mp all
    rcases advances with rfl | ⟨open_, _⟩
    · rw [ih tail]
    · rw [head] at open_
      cases open_

/-- The counters of a list and of a later one. -/
structure Tally.Grows (c later : Tally) : Prop where
  n : later.n = c.n
  succ : c.succ ≤ later.succ
  fail : c.fail ≤ later.fail
  skip : c.skip ≤ later.skip
  whole : c.done = c.n → later = c

theorem Resolves.grows (resolves : Resolves deps later) : (tally deps).Grows (tally later) where
  n := resolves.length_eq.symm
  succ := countP_resolves success_finished resolves
  fail := countP_resolves failure_finished resolves
  skip := countP_resolves skipped_finished resolves
  whole all := by rw [resolves.eq_of_finished (tally_done_eq.mp all)]

end Counters

namespace Tally

/-- The counters of a list of dependencies. -/
structure Sound (c : Tally) : Prop where
  sum : c.succ + c.fail + c.skip = c.done
  done : c.done ≤ c.n

theorem sound (deps : List (Option TaskState)) : (tally deps).Sound := ⟨tally_done deps, tally_done_le deps⟩

variable {c later : Tally} {rule : TriggerRule}

/-- No rule fires and blocks at once. -/
theorem Sound.exclusive (sound : c.Sound) (ready : (c.gate rule).ready = true) :
    (c.gate rule).blocked = false := by
  obtain ⟨sum, done⟩ := sound
  cases rule <;> simp [gate] at ready ⊢ <;> omega

/-- A verdict on entries that have not all finished rests on a counter that is positive, and stays. -/
theorem Sound.stable (sound : c.Sound) (sound' : later.Sound) (grows : c.Grows later)
    (verdict : (c.gate rule).ready = true ∨ (c.gate rule).blocked = true) : later.gate rule = c.gate rule := by
  by_cases all : c.done = c.n
  · rw [grows.whole all]
  · obtain ⟨sum, done⟩ := sound
    obtain ⟨sum', done'⟩ := sound'
    obtain ⟨n, succ, fail, skip, _⟩ := grows
    cases rule with
    | allDone => simp [gate, all] at verdict
    | oneSuccess =>
      have fired : c.succ ≥ 1 := by simpa [gate, all] using verdict
      have still : later.succ ≥ 1 := by omega
      simp [gate, fired, still, Nat.ne_of_gt fired, Nat.ne_of_gt still]
    | oneFailed =>
      have fired : c.fail ≥ 1 := by simpa [gate, all] using verdict
      have still : later.fail ≥ 1 := by omega
      simp [gate, fired, still, Nat.ne_of_gt fired, Nat.ne_of_gt still]
    | allFailed =>
      have fired : c.succ > 0 ∨ c.skip > 0 := by simpa [gate, all] using verdict
      have still : later.succ > 0 ∨ later.skip > 0 := by omega
      have short : later.fail ≠ later.n := by omega
      have before : (decide (c.succ > 0) || decide (c.skip > 0)) = true := by simpa using fired
      have after : (decide (later.succ > 0) || decide (later.skip > 0)) = true := by simpa using still
      simp [gate, all, short, before, after]
    | noneFailed =>
      have fired : c.fail > 0 := by simpa [gate, all] using verdict
      have still : later.fail > 0 := by omega
      simp [gate, all, fired, still, Nat.ne_of_gt still]
    | allSuccess =>
      have short : c.succ ≠ c.n := by omega
      have fired : c.fail > 0 ∨ c.skip > 0 := by simpa [gate, short] using verdict
      have still : later.fail > 0 ∨ later.skip > 0 := by omega
      have short' : later.succ ≠ later.n := by omega
      have before : (decide (c.fail > 0) || decide (c.skip > 0)) = true := by simpa using fired
      have after : (decide (later.fail > 0) || decide (later.skip > 0)) = true := by simpa using still
      simp [gate, short, short', before, after]

end Tally

section Decision

variable {deps later : List (Option TaskState)} {rule : TriggerRule}

theorem evalTriggerRule_exclusive (rule : TriggerRule) (deps : List (Option TaskState)) :
    ¬ ((evalTriggerRule rule deps).ready = true ∧ (evalTriggerRule rule deps).blocked = true) := by
  rintro ⟨ready, blocked⟩
  unfold evalTriggerRule at ready blocked
  split at ready
  · rename_i none
    rw [if_pos none] at blocked
    cases blocked
  · rename_i some
    rw [if_neg some, (Tally.sound deps).exclusive ready] at blocked
    cases blocked

/-- A verdict stands while further dependencies finish. -/
theorem evalTriggerRule_stable (resolves : Resolves deps later)
    (verdict : (evalTriggerRule rule deps).ready = true ∨ (evalTriggerRule rule deps).blocked = true) :
    evalTriggerRule rule later = evalTriggerRule rule deps := by
  unfold evalTriggerRule at verdict ⊢
  rw [← resolves.length_eq]
  split
  · rfl
  · rename_i some
    rw [if_neg some] at verdict
    exact (Tally.sound deps).stable (Tally.sound later) resolves.grows verdict

/-- Trigger rules decide once and for all: never both ways, one way at the latest when every
dependency has finished, and no later outcome contradicts a verdict. -/
theorem evalTriggerRule_decides (rule : TriggerRule) (deps : List (Option TaskState)) :
    ¬ ((evalTriggerRule rule deps).ready = true ∧ (evalTriggerRule rule deps).blocked = true) ∧
      ((∀ d ∈ deps, finished d = true) → (evalTriggerRule rule deps).blocked = !(evalTriggerRule rule deps).ready) ∧
      ((evalTriggerRule rule deps).ready = true ∨ (evalTriggerRule rule deps).blocked = true →
        ∀ later, Resolves deps later → evalTriggerRule rule later = evalTriggerRule rule deps) := by
  refine ⟨evalTriggerRule_exclusive rule deps, fun all => ?_, fun verdict later resolves => evalTriggerRule_stable resolves verdict⟩
  have apart := evalTriggerRule_exclusive rule deps
  rcases evalTriggerRule_settled rule all with ready | blocked
  · rw [ready] at apart ⊢
    simpa using apart
  · rw [blocked] at apart ⊢
    simpa using apart

/-- A failed extraction decides `all_success` before the other one has ended. -/
theorem one_failure_decides :
    (evalTriggerRule .allSuccess [some .failed, some .running]).blocked = true ∧
      ∀ s : TaskState, s.isTerminal = true →
        evalTriggerRule .allSuccess [some .failed, some s] = evalTriggerRule .allSuccess [some .failed, some .running] := by
  refine ⟨rfl, fun s terminal => ?_⟩
  refine (evalTriggerRule_decides .allSuccess [some .failed, some .running]).2.2 (.inr rfl) _ ?_
  exact .cons (.inl rfl) (.cons (.inr ⟨rfl, terminal⟩) .nil)

end Decision

end Cronova.Model
