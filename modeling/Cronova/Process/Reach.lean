import Mathlib.Data.List.Basic

/-! Runs of a machine whose step may be impossible.

A demand is asked of every step where it is taken; the states that such runs lead to are the
reachable ones.
-/

set_option autoImplicit false

namespace Cronova.Process

variable {S L : Type} {step : S → L → Option S} {demand : S → L → Prop} {start s t : S}

/-- The end of a run all of whose steps meet the demand. -/
inductive Reach (step : S → L → Option S) (demand : S → L → Prop) (start : S) : S → Prop where
  | refl : Reach step demand start start
  | next {s t : S} (label : L) : Reach step demand start s → demand s label → step s label = some t →
      Reach step demand start t

namespace Reach

/-- The invariant rule. -/
theorem invariant {inv : S → Prop} (init : inv start)
    (keeps : ∀ s label t, inv s → demand s label → step s label = some t → inv t)
    (reached : Reach step demand start s) : inv s := by
  induction reached with
  | refl => exact init
  | next label _ met stepped ih => exact keeps _ label _ ih met stepped

theorem trans (first : Reach step demand start s) (second : Reach step demand s t) : Reach step demand start t := by
  induction second with
  | refl => exact first
  | next label _ met stepped ih => exact ih.next label met stepped

end Reach

/-- The labels in turn. -/
def runSteps (step : S → L → Option S) : S → List L → Option S
  | s, [] => some s
  | s, label :: rest => (step s label).bind fun t => runSteps step t rest

theorem runSteps_append (first second : List L) :
    runSteps step s (first ++ second) = (runSteps step s first).bind fun t => runSteps step t second := by
  induction first generalizing s with
  | nil => rfl
  | cons label rest ih =>
    simp only [List.cons_append, runSteps, Option.bind_assoc]
    congr 1
    funext t
    exact ih

/-- What is asked of each step where it is taken. -/
def EachStep (step : S → L → Option S) (demand : S → L → Prop) : S → List L → Prop
  | _, [] => True
  | s, label :: rest => demand s label ∧ ∀ t, step s label = some t → EachStep step demand t rest

def EachStep.decide [∀ s label, Decidable (demand s label)] : ∀ s labels, Decidable (EachStep step demand s labels)
  | _, [] => .isTrue trivial
  | s, label :: rest =>
    match stepped : step s label with
    | none => decidable_of_iff (demand s label) (by simp [EachStep, stepped])
    | some t =>
      have := EachStep.decide t rest
      decidable_of_iff (demand s label ∧ EachStep step demand t rest) (by simp [EachStep, stepped])

instance [∀ s label, Decidable (demand s label)] (s : S) (labels : List L) : Decidable (EachStep step demand s labels) :=
  EachStep.decide s labels

theorem EachStep.reach {labels : List L} (met : EachStep step demand s labels) (ran : runSteps step s labels = some t) :
    Reach step demand s t := by
  induction labels generalizing s with
  | nil =>
    cases ran
    exact .refl
  | cons label rest ih =>
    obtain ⟨here, later⟩ := met
    obtain ⟨u, stepped, onward⟩ := Option.bind_eq_some_iff.mp ran
    exact (Reach.refl.next label here stepped).trans (ih (later u stepped) onward)

theorem eachStep_true (labels : List L) (s : S) : EachStep step (fun _ _ => True) s labels := by
  induction labels generalizing s with
  | nil => exact trivial
  | cons label rest ih => exact ⟨trivial, fun t _ => ih t⟩

end Cronova.Process
